import ChangeRelay.Proofs.Record.InTurn
/-!
# Builds that leave each other alone

All that one build leaves to the next are the turns. A build neither uses nor changes the turn of
rows unless it is for a row without a placement key and finds several partitions to choose from, so
the other builds of a run can be left out of it and the records of these rows stay as they are.
-/

namespace ChangeRelay

/-- A record to be built: what the broker answers when it is asked for the partitions of a topic,
and the change. -/
structure Request where
  answer : String → Except Error Int32
  change : Change

/-- What a request comes to. -/
structure Served where
  request : Request
  result : Except Error Record
  /-- The topics whose partitions were asked for. -/
  asked : List String

/-- Answers, and notes the topic that was asked for. -/
def Request.ask (x : Request) (asked : List String) (topic : String) :
    Except Error Int32 × List String :=
  (x.answer topic, asked ++ [topic])

namespace RecordPlan

variable {plan : RecordPlan} {turns turns' : Turns} {x : Request} {σ : Type}

/-! ## One build -/

/-- Makes the record of a change as `build` does, whatever is asked for the partitions of its topic
and whatever asking changes. -/
def buildBy (ask : σ → String → Except Error Int32 × σ) (plan : RecordPlan) (s : σ) (turns : Turns)
    (c : Change) : Except Error (Record × Turns) × σ :=
  let (count, s) := ask s (plan.topic c)
  (count.map (plan.record turns c), s)

/-- The broker is one that can be asked. -/
theorem build_eq_buildBy (plan : RecordPlan) : plan.build = plan.buildBy Broker.lookUp :=
  rfl

/-- What a request comes to, and the turns after it. A build that fails leaves them as they are. -/
def serve (plan : RecordPlan) (turns : Turns) (x : Request) : Served × Turns :=
  let (built, asked) := plan.buildBy x.ask [] turns x.change
  ({ request := x, result := built.map Prod.fst, asked },
    match built with
    | .ok (_, next) => next
    | .error _ => turns)

/-- Whether a request leaves the place of its record open: it is for a row without a placement key,
and the topic is known to have several partitions. -/
def leavesOpen (plan : RecordPlan) (x : Request) : Bool :=
  plan.isKeyless x.change &&
    match x.answer (plan.topic x.change) with
    | .ok count => decide (1 < count)
    | .error _ => false

theorem serve_ok {count : Int32} (h : x.answer (plan.topic x.change) = .ok count) :
    plan.serve turns x =
      ({ request := x
         result := .ok (plan.record turns x.change count).1
         asked := [plan.topic x.change] }, (plan.record turns x.change count).2) := by
  simp only [serve, buildBy, Request.ask, h]
  rfl

theorem serve_error {e : Error} (h : x.answer (plan.topic x.change) = .error e) :
    plan.serve turns x =
      ({ request := x, result := .error e, asked := [plan.topic x.change] }, turns) := by
  simp only [serve, buildBy, Request.ask, h]
  rfl

/-- Nobody takes a turn where there is no choice. -/
theorem turn_placeKeyless (p : Placement) (turn : UInt64) (row : RowId) {count : Int32}
    (hcount : count ≤ 1) : (p.placeKeyless turn row count).2 = turn := by
  unfold Placement.placeKeyless
  cases p.keyless with
  | first => rfl
  | database => rfl
  | table => rfl
  | inTurn => simp only [if_pos hcount]

/-- The record of a row and the turn of rows after it depend on no turn but that of rows. -/
theorem record_of_row {c : Change} (hrow : c.isSchemaChange = false) (turns : Turns)
    (count : Int32) :
    (plan.record turns c count).1 =
        { topic := plan.topic c
          partition := some (plan.rowPlacement.place turns.row c.row count).1
          key := plan.keyEncoding.key c.row
          value := c.payload } ∧
      (plan.record turns c count).2.row = (plan.rowPlacement.place turns.row c.row count).2 := by
  have hplacement : plan.placement c = plan.rowPlacement := by simp [placement, hrow]
  simp only [record, hplacement, Turns.of_row hrow, Turns.row_set_row hrow, and_self]

theorem row_record {c : Change} (hkeyless : plan.isKeyless c = true) (turns : Turns)
    {count : Int32} (hcount : count ≤ 1) : (plan.record turns c count).2.row = turns.row := by
  obtain ⟨hrow, hkey⟩ := isKeyless_iff.mp hkeyless
  rw [(record_of_row hrow turns count).2, Placement.place]
  simp only [hkey, turn_placeKeyless _ _ _ hcount]

/-- A request that does not leave the place open leaves the turn of rows. -/
theorem row_serve (h : plan.leavesOpen x = false) : (plan.serve turns x).2.row = turns.row := by
  cases hanswer : x.answer (plan.topic x.change) with
  | error e => rw [serve_error hanswer]
  | ok count =>
    rw [serve_ok hanswer]
    cases hkeyless : plan.isKeyless x.change with
    | false => exact record_keyed hkeyless turns count
    | true =>
      have hfew : ¬ 1 < count := by simpa [leavesOpen, hkeyless, hanswer] using h
      exact row_record hkeyless turns (Int32.not_lt.mp hfew)

/-- One that does depends on no turn but that of rows. -/
theorem serve_congr (h : plan.leavesOpen x = true) (hturns : turns.row = turns'.row) :
    (plan.serve turns x).1 = (plan.serve turns' x).1 ∧
      (plan.serve turns x).2.row = (plan.serve turns' x).2.row := by
  have hkeyless : plan.isKeyless x.change = true := by
    simp only [leavesOpen, Bool.and_eq_true] at h
    exact h.1
  obtain ⟨hrow, -⟩ := isKeyless_iff.mp hkeyless
  cases hanswer : x.answer (plan.topic x.change) with
  | error e =>
    rw [serve_error hanswer, serve_error hanswer]
    exact ⟨rfl, hturns⟩
  | ok count =>
    obtain ⟨hrecord, hnext⟩ := record_of_row hrow turns count
    obtain ⟨hrecord', hnext'⟩ := record_of_row hrow turns' count
    rw [serve_ok hanswer, serve_ok hanswer, hrecord, hrecord', hnext, hnext', hturns]
    exact ⟨rfl, rfl⟩

theorem serve_request (plan : RecordPlan) (turns : Turns) (x : Request) :
    (plan.serve turns x).1.request = x :=
  rfl

/-! ## A run of builds -/

/-- What the requests of a run come to, one after the other. -/
def serveAll (plan : RecordPlan) : Turns → List Request → List Served
  | _, [] => []
  | turns, x :: run => (plan.serve turns x).1 :: plan.serveAll (plan.serve turns x).2 run

/-- What is left out of a run may have taken turns of schema changes, but none of rows. -/
theorem serveAll_filter_of_row (hturns : turns.row = turns'.row) (run : List Request) :
    (plan.serveAll turns run).filter (plan.leavesOpen ·.request) =
      plan.serveAll turns' (run.filter plan.leavesOpen) := by
  induction run generalizing turns turns' with
  | nil => rfl
  | cons x run ih =>
    cases hopen : plan.leavesOpen x with
    | true =>
      obtain ⟨hserved, hnext⟩ := serve_congr hopen hturns
      rw [serveAll, List.filter_cons_of_pos (by rw [serve_request, hopen]), ih hnext,
        List.filter_cons_of_pos hopen, serveAll, hserved]
    | false =>
      rw [serveAll, List.filter_cons_of_neg (by rw [serve_request, hopen]; decide),
        ih ((row_serve hopen).trans hturns), List.filter_cons_of_neg (by rw [hopen]; decide)]

/-- Every request of a run is answered in its turn. -/
theorem exists_serve_of_mem {turns : Turns} {run : List Request} {s : Served}
    (h : s ∈ plan.serveAll turns run) : ∃ turns x, s = (plan.serve turns x).1 := by
  induction run generalizing turns with
  | nil => exact absurd h List.not_mem_nil
  | cons x run ih =>
    cases List.mem_cons.mp h with
    | inl hhead => exact ⟨turns, x, hhead⟩
    | inr htail => exact ih htail

theorem serveAll_request (plan : RecordPlan) (turns : Turns) (run : List Request) :
    (plan.serveAll turns run).map (·.request) = run := by
  induction run generalizing turns with
  | nil => rfl
  | cons x run ih => rw [serveAll, List.map_cons, ih, serve_request]

/-- Whether a request asked once, for the topic of the record that it got, and got an error that was
its answer as it is. -/
def Faithful (plan : RecordPlan) (s : Served) : Prop :=
  s.asked = [plan.topic s.request.change] ∧
    match s.request.answer (plan.topic s.request.change) with
    | .ok _ => ∃ r, s.result = .ok r ∧ r.topic = plan.topic s.request.change
    | .error e => s.result = .error e

theorem faithful_serve (plan : RecordPlan) (turns : Turns) (x : Request) :
    plan.Faithful (plan.serve turns x).1 := by
  cases hanswer : x.answer (plan.topic x.change) with
  | ok count =>
    rw [serve_ok hanswer]
    refine ⟨rfl, ?_⟩
    simp only [hanswer]
    exact ⟨_, rfl, rfl⟩
  | error e =>
    rw [serve_error hanswer]
    refine ⟨rfl, ?_⟩
    simp only [hanswer]

/-- All requests that do not leave the place of their record open can be left out of a run of
builds: schema changes, failed builds, rows with a placement key, and rows of topics without a
choice. What the others come to stays the same, records and all. And every request, whoever is asked
and whatever the answer, asks once, for the topic of its record, and hands on the error it gets. -/
theorem open_places_undisturbed (plan : RecordPlan) (turns : Turns) (run : List Request) :
    (plan.serveAll turns run).map (·.request) = run ∧
      (plan.serveAll turns run).filter (plan.leavesOpen ·.request) =
        plan.serveAll turns (run.filter plan.leavesOpen) ∧
      (∀ s ∈ plan.serveAll turns run, plan.Faithful s) ∧
      plan.build = plan.buildBy Broker.lookUp := by
  refine ⟨plan.serveAll_request turns run, serveAll_filter_of_row rfl run, fun s hs => ?_,
    plan.build_eq_buildBy⟩
  obtain ⟨turns, x, rfl⟩ := exists_serve_of_mem hs
  exact plan.faithful_serve turns x

end RecordPlan

end ChangeRelay
