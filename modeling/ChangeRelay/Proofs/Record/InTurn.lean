import ChangeRelay.Delivery.Broker
import ChangeRelay.Proofs.Record.InRange
import Mathlib.Data.Nat.ModEq
/-!
# Rows placed in turn

Rows without a placement key may be placed on one partition after the other. The turn is counted
for all topics together, so the rows of one topic come to different partitions as long as the turns
that other topics take between them do not bring two of them to the same one.
-/

namespace ChangeRelay

/-- A record to be built: the broker that tells how many partitions there are, and the change. -/
structure Build where
  broker : Broker
  change : Change

namespace RecordPlan

variable {plan : RecordPlan} {topic : String} {turns : Turns} {x : Build} {k : ℕ} {run : List Build}

/-! ## One build -/

/-- Whether a change is a row without a placement key. -/
def isKeyless (plan : RecordPlan) (c : Change) : Bool :=
  !c.isSchemaChange && (plan.rowPlacement.key.text? c.row).isNone

theorem isKeyless_iff {c : Change} : plan.isKeyless c = true ↔
    c.isSchemaChange = false ∧ plan.rowPlacement.key.text? c.row = none := by
  simp [isKeyless]

/-- Whether a build takes a turn: that of a row without a placement key, for a topic that is known
to have several partitions. -/
def takesTurn (plan : RecordPlan) (x : Build) : Bool :=
  plan.isKeyless x.change && x.broker.metadataError.isNone &&
    decide (1 < x.broker.partitionsOf (plan.topic x.change))

/-- The turns after a build. A build that fails leaves them as they are. -/
def turnsAfter (plan : RecordPlan) (turns : Turns) (x : Build) : Turns :=
  match (plan.build x.broker turns x.change).1 with
  | .ok built => built.2
  | .error _ => turns

/-- Where a build puts a row of `topic` without a placement key. -/
def placedHere (plan : RecordPlan) (topic : String) (turns : Turns) (x : Build) :
    List (Option Int32) :=
  match (plan.build x.broker turns x.change).1 with
  | .ok built =>
    if plan.isKeyless x.change && built.1.topic = topic then [built.1.partition] else []
  | .error _ => []

theorem build_known (h : x.broker.metadataError = none) : (plan.build x.broker turns x.change).1 =
    .ok (plan.record turns x.change (x.broker.partitionsOf (plan.topic x.change))) := by
  simp only [build, Broker.lookUp, h]
  rfl

theorem build_unknown {message : String} (h : x.broker.metadataError = some message) :
    (plan.build x.broker turns x.change).1 =
      .error (.metadata (plan.topic x.change) message) := by
  simp only [build, Broker.lookUp, h]
  rfl

/-- A row without a placement key is placed in turn, and takes the turn if there is a choice. -/
theorem place_keyless (hturn : plan.rowPlacement.keyless = .inTurn) {c : Change}
    (hkeyless : plan.isKeyless c = true) (turn : UInt64) (count : Int32) :
    (plan.placement c).place turn c.row count =
      if 1 < count then (Int32.ofNat (turn.toNat % count.toNatClampNeg), turn + 1)
      else (0, turn) := by
  obtain ⟨hrow, hkey⟩ := isKeyless_iff.mp hkeyless
  have hplacement : plan.placement c = plan.rowPlacement := by simp [placement, hrow]
  rw [hplacement, Placement.place]
  simp only [hkey]
  exact Placement.placeKeyless_inTurn hturn turn c.row count

/-- Other rows and schema changes leave the turn of rows. -/
theorem record_keyed {c : Change} (hkeyless : plan.isKeyless c = false) (turns : Turns)
    (count : Int32) : (plan.record turns c count).2.row = turns.row := by
  cases hrow : c.isSchemaChange with
  | true => exact Turns.row_set_schema hrow _ _
  | false =>
    cases hkey : plan.rowPlacement.key.text? c.row with
    | none => simp [isKeyless, hrow, hkey] at hkeyless
    | some key =>
      simp [record, placement, hrow, Placement.place, hkey, Turns.of_row, Turns.row_set_row]

/-- A row without a placement key leaves the turn after its own, if there is a choice. -/
theorem record_keyless (hturn : plan.rowPlacement.keyless = .inTurn) {c : Change}
    (hkeyless : plan.isKeyless c = true) (turns : Turns) (count : Int32) :
    (plan.record turns c count).2.row = if 1 < count then turns.row + 1 else turns.row := by
  obtain ⟨hrow, -⟩ := isKeyless_iff.mp hkeyless
  simp only [record, place_keyless hturn hkeyless, Turns.of_row hrow, Turns.row_set_row hrow]
  split <;> rfl

theorem row_turnsAfter (hturn : plan.rowPlacement.keyless = .inTurn) (turns : Turns) (x : Build) :
    (plan.turnsAfter turns x).row = if plan.takesTurn x then turns.row + 1 else turns.row := by
  unfold turnsAfter takesTurn
  cases hmetadata : x.broker.metadataError with
  | some message => simp [build_unknown hmetadata]
  | none =>
    rw [build_known hmetadata]
    cases hkeyless : plan.isKeyless x.change with
    | false => simp [record_keyed hkeyless]
    | true => simp [record_keyless hturn hkeyless]

/-- A row of `topic` that takes a turn is placed by it; no other build places one, as long as the
topic has several partitions. -/
theorem placedHere_eq (hturn : plan.rowPlacement.keyless = .inTurn) {n : Int32} (hn : 1 < n)
    (hsteady : plan.topic x.change = topic → x.broker.partitionsOf topic = n) (turns : Turns) :
    plan.placedHere topic turns x = if plan.takesTurn x && plan.topic x.change = topic then
      [some (Int32.ofNat (turns.row.toNat % n.toNatClampNeg))] else [] := by
  unfold placedHere takesTurn
  cases hmetadata : x.broker.metadataError with
  | some message => simp [build_unknown hmetadata]
  | none =>
    rw [build_known hmetadata]
    cases hkeyless : plan.isKeyless x.change with
    | false => simp
    | true =>
      obtain ⟨hrow, -⟩ := isKeyless_iff.mp hkeyless
      by_cases htopic : plan.topic x.change = topic
      · simp [record, place_keyless hturn hkeyless, Turns.of_row hrow, htopic, hsteady htopic, hn]
      · simp [record, htopic]

/-! ## A run of builds -/

/-- The turns after builds, one after the other. -/
def turnsAfterRun (plan : RecordPlan) (turns : Turns) (run : List Build) : Turns :=
  run.foldl plan.turnsAfter turns

/-- Where the rows of `topic` without a placement key are put in a run, in order. -/
def placed (plan : RecordPlan) (topic : String) : Turns → List Build → List (Option Int32)
  | _, [] => []
  | turns, x :: run =>
    plan.placedHere topic turns x ++ plan.placed topic (plan.turnsAfter turns x) run

/-- The numbers of the turns that the rows of `topic` take in a run whose first turn is number
`k`. -/
def turnsOf (plan : RecordPlan) (topic : String) : ℕ → List Build → List ℕ
  | _, [] => []
  | k, x :: run =>
    if plan.takesTurn x then
      (if plan.topic x.change = topic then [k] else []) ++ plan.turnsOf topic (k + 1) run
    else plan.turnsOf topic k run

/-- The turn counts the turns that were taken. -/
theorem row_turnsAfterRun (hturn : plan.rowPlacement.keyless = .inTurn)
    (hrow : turns.row = UInt64.ofNat k) (run : List Build) :
    (plan.turnsAfterRun turns run).row = UInt64.ofNat (k + run.countP plan.takesTurn) := by
  induction run generalizing turns k with
  | nil => exact hrow
  | cons x run ih =>
    have hafter := plan.row_turnsAfter hturn turns x
    rw [turnsAfterRun, List.foldl_cons, ← turnsAfterRun, List.countP_cons]
    split at hafter
    · have hnext : UInt64.ofNat k + 1 = UInt64.ofNat (k + 1) := (UInt64.ofNat_add k 1).symm
      rw [hrow, hnext] at hafter
      rw [ih hafter, Nat.add_assoc, Nat.add_comm 1, if_pos ‹_›]
    · rw [ih (hafter.trans hrow), if_neg ‹_›]
      rfl

theorem placed_eq (hturn : plan.rowPlacement.keyless = .inTurn) {n : Int32} (hn : 1 < n)
    (hrow : turns.row = UInt64.ofNat k)
    (hsteady : ∀ x ∈ run, plan.topic x.change = topic → x.broker.partitionsOf topic = n)
    (hfew : k + run.countP plan.takesTurn < 2 ^ 64) :
    plan.placed topic turns run =
      (plan.turnsOf topic k run).map fun k => some (Int32.ofNat (k % n.toNatClampNeg)) := by
  induction run generalizing turns k with
  | nil => rfl
  | cons x run ih =>
    obtain ⟨hfirst, hrest⟩ := List.forall_mem_cons.mp hsteady
    rw [List.countP_cons] at hfew
    have hlt : k < 2 ^ 64 := Nat.lt_of_le_of_lt (Nat.le_add_right _ _) hfew
    have hk : (UInt64.ofNat k).toNat = k := UInt64.toNat_ofNat_of_lt' hlt
    have hafter := plan.row_turnsAfter hturn turns x
    rw [placed, turnsOf, placedHere_eq hturn hn hfirst, hrow, hk]
    cases htakes : plan.takesTurn x with
    | false =>
      rw [htakes] at hfew hafter
      simpa using ih (hafter.trans hrow) hrest hfew
    | true =>
      rw [htakes, if_pos rfl] at hfew hafter
      have hnext : UInt64.ofNat k + 1 = UInt64.ofNat (k + 1) := (UInt64.ofNat_add k 1).symm
      rw [hrow, hnext] at hafter
      simp only [if_true, Bool.true_and, decide_eq_true_eq]
      rw [ih hafter hrest (by omega), List.map_append]
      split <;> rfl

/-- When no other topic takes a turn, the turns of a topic are consecutive. -/
theorem turnsOf_eq_range' (h : ∀ x ∈ run, plan.takesTurn x = true → plan.topic x.change = topic)
    (k : ℕ) : plan.turnsOf topic k run = List.range' k (plan.turnsOf topic k run).length := by
  induction run generalizing k with
  | nil => rfl
  | cons x run ih =>
    obtain ⟨hfirst, hrest⟩ := List.forall_mem_cons.mp h
    rw [turnsOf]
    split
    · next htakes =>
      rw [if_pos (hfirst htakes), List.singleton_append, List.length_cons, List.range'_succ,
        ← ih hrest]
    · exact ih hrest k

/-! ## Different partitions -/

theorem ofNat_mod_inj {n : Int32} (hn : 1 < n) {k l : ℕ} :
    Int32.ofNat (k % n.toNatClampNeg) = Int32.ofNat (l % n.toNatClampNeg) ↔
      k ≡ l [MOD n.toNatClampNeg] := by
  have hpos : 0 < n.toNatClampNeg := by
    obtain ⟨hseveral, hsame⟩ := Placement.toInt_toNatClampNeg hn
    omega
  have hsmall (m : ℕ) : m % n.toNatClampNeg < 2 ^ 31 :=
    (Nat.mod_lt m hpos).trans n.toNatClampNeg_lt
  refine ⟨fun h => ?_, fun h => congrArg Int32.ofNat h⟩
  have hint := congrArg Int32.toInt h
  rw [Int32.toInt_ofNat_of_lt (hsmall k), Int32.toInt_ofNat_of_lt (hsmall l)] at hint
  exact Int.ofNat_inj.mp hint

/-- Fewer than `n + 1` consecutive numbers are pairwise incongruent. -/
theorem pairwise_range' {m n : ℕ} (k : ℕ) (h : m ≤ n) :
    (List.range' k m).Pairwise fun a b => ¬ a ≡ b [MOD n] := by
  refine (List.pairwise_lt_range' (s := k) (n := m)).imp_of_mem fun {a b} ha hb hlt hmod => ?_
  obtain ⟨_, hm⟩ := List.mem_range'_1.mp hb
  obtain ⟨hk, _⟩ := List.mem_range'_1.mp ha
  have hdvd := (Nat.modEq_iff_dvd' (Nat.le_of_lt hlt)).mp hmod
  exact Nat.not_dvd_of_pos_of_lt (by omega) (by omega) hdvd

/-- In a run of builds the rows of a topic that have no placement key are placed by the numbers of
their turns. So those among any successive builds come to different partitions exactly when no two
of their turns are congruent; and this is so when there are not more of them than partitions and no
row of another topic takes a turn between them. -/
theorem placed_nodup_iff (hturn : plan.rowPlacement.keyless = .inTurn) (topic : String) {n : Int32}
    (hn : 1 < n) (before run : List Build)
    (hsteady : ∀ x ∈ run, plan.topic x.change = topic → x.broker.partitionsOf topic = n)
    (hfew : (before ++ run).countP plan.takesTurn < 2 ^ 64) :
    let partitions := plan.placed topic (plan.turnsAfterRun {} before) run
    let turns := plan.turnsOf topic (before.countP plan.takesTurn) run
    partitions = turns.map (fun k => some (Int32.ofNat (k % n.toNatClampNeg))) ∧
      (partitions.Nodup ↔ turns.Pairwise fun k l => ¬ k ≡ l [MOD n.toNatClampNeg]) ∧
      ((∀ x ∈ run, plan.takesTurn x = true → plan.topic x.change = topic) →
        partitions.length ≤ n.toNatClampNeg → partitions.Nodup) := by
  intro partitions turns
  have hstart : (plan.turnsAfterRun {} before).row =
      UInt64.ofNat (before.countP plan.takesTurn) := by
    have hrun :=
      plan.row_turnsAfterRun hturn (show ({} : Turns).row = UInt64.ofNat 0 from rfl) before
    rwa [Nat.zero_add] at hrun
  have hplaced : partitions = turns.map fun k => some (Int32.ofNat (k % n.toNatClampNeg)) := by
    rw [List.countP_append] at hfew
    show plan.placed topic (plan.turnsAfterRun {} before) run = _
    exact placed_eq hturn hn hstart hsteady hfew
  have hnodup : partitions.Nodup ↔ turns.Pairwise fun k l => ¬ k ≡ l [MOD n.toNatClampNeg] := by
    rw [hplaced, List.Nodup, List.pairwise_map]
    simp only [ne_eq, Option.some.injEq, ofNat_mod_inj hn]
  refine ⟨hplaced, hnodup, fun hown hlength => hnodup.mpr ?_⟩
  rw [hplaced, List.length_map] at hlength
  rw [show turns = List.range' _ turns.length from turnsOf_eq_range' hown _]
  exact pairwise_range' _ hlength

/-! ## One topic, and two that alternate -/

/-- A plan with a topic for every table, where rows without a primary key are placed in turn. -/
def cycling : RecordPlan where
  rowTopic := ⟨"%\x7btable\x7d"⟩
  schemaTopic := ⟨"schema"⟩
  rowPlacement := ⟨.polynomial, .primaryKey, .inTurn⟩
  schemaPlacement := .ofSchemaChanges .polynomial
  keyEncoding := .array

/-- A row without a primary key, when two topics have two partitions each. -/
def keylessOf (table : String) : Build where
  broker := { partitions := [("orders", 2), ("users", 2)] }
  change := ⟨⟨"log", 1⟩, ⟨"shop", some table, []⟩, "\x7b\x7d", false, none⟩

theorem placed_after_other_topic :
    (cycling.rowPlacement.keyless = .inTurn ∧ (1 : Int32) < 2 ∧
      (∀ x ∈ [keylessOf "orders", keylessOf "orders"], cycling.topic x.change = "orders" →
        x.broker.partitionsOf "orders" = 2) ∧
      ([keylessOf "users"] ++ [keylessOf "orders", keylessOf "orders"]).countP cycling.takesTurn <
        2 ^ 64) ∧
    (cycling.placed "orders" (cycling.turnsAfterRun {} [keylessOf "users"])
      [keylessOf "orders", keylessOf "orders"]).Nodup := by
  have hsteady : ∀ x ∈ [keylessOf "orders", keylessOf "orders"],
      cycling.topic x.change = "orders" → x.broker.partitionsOf "orders" = 2 := by decide
  have hfew : ([keylessOf "users"] ++ [keylessOf "orders", keylessOf "orders"]).countP
      cycling.takesTurn < 2 ^ 64 := by decide
  obtain ⟨-, -, hspread⟩ := placed_nodup_iff rfl "orders" (by decide) [keylessOf "users"]
    [keylessOf "orders", keylessOf "orders"] hsteady hfew
  exact ⟨⟨rfl, by decide, hsteady, hfew⟩, hspread (by decide) (by decide)⟩

/-- Rows of two topics alternate, and the rows of each topic all come to one of its two
partitions. -/
theorem one_partition_of_alternating :
    ∃ run, run = [keylessOf "orders", keylessOf "users", keylessOf "orders", keylessOf "users"] ∧
      cycling.rowPlacement.keyless = .inTurn ∧
      (∀ x ∈ run, x.broker.partitionsOf "orders" = 2 ∧ x.broker.partitionsOf "users" = 2) ∧
      cycling.placed "orders" {} run = [some 0, some 0] ∧
      cycling.placed "users" {} run = [some 1, some 1] ∧
      ¬ (cycling.placed "orders" {} run).Nodup :=
  ⟨_, rfl, rfl, by decide, by decide, by decide, by decide⟩

end RecordPlan

end ChangeRelay
