import ChangeRelay.Json.Reader
import ChangeRelay.Proofs.Json.ReadBack
import Mathlib.Data.String.Basic
/-!
# What a text can hold

A value that was read from a text has integers of 64 bits only, lists the members of its objects in
the order of their names, each name once, and is nested at most as deep as the reader goes.
-/

namespace ChangeRelay.Json

/-! ## Readers that succeed -/

section

variable {ε α β : Type}

theorem bind_eq_ok {x : Except ε α} {f : α → Except ε β} {b : β} :
    x >>= f = .ok b ↔ ∃ a, x = .ok a ∧ f a = .ok b := by
  cases x <;> simp [bind, Except.bind]

theorem map_eq_ok {x : Except ε α} {f : α → β} {b : β} :
    x.map f = .ok b ↔ ∃ a, x = .ok a ∧ f a = b := by
  cases x <;> simp [Except.map]

theorem lift_eq_ok {x : Except Failure α} {a : α} : lift x = .ok a ↔ x = .ok a := by
  cases x <;> simp [lift, Except.mapError]

end

/-! ## Numbers -/

variable {cs rest : List Char} {negative : Bool} {d : Decimal} {n : Int}

theorem absorb_lt {significand : ℕ} (h : significand < significandLimit) (digits : List Char) :
    (absorb significand digits).1 < significandLimit := by
  induction digits generalizing significand with
  | nil => exact h
  | cons d digits ih =>
    rw [absorb]
    split
    · next hnext => exact ih hnext
    · exact h

theorem toNumber_ne_int : d.toNumber negative cs ≠ .ok (.int n, rest) := by
  unfold Decimal.toNumber
  split <;> simp

theorem readExponent_ne_int : readExponent negative d cs ≠ .ok (.int n, rest) := by
  unfold readExponent
  grind [toNumber_ne_int]

theorem readFraction_ne_int : readFraction negative d cs ≠ .ok (.int n, rest) := by
  unfold readFraction readAfterFraction
  grind [toNumber_ne_int, readExponent_ne_int]

/-- A number that is kept as an integer fits 64 bits. -/
theorem keepable_of_readAfterWhole {digits : List Char}
    (h : readAfterWhole negative digits cs = .ok (.int n, rest)) : Keepable n := by
  have hlimit : (absorb 0 digits).1 < significandLimit := absorb_lt (by decide) digits
  unfold readAfterWhole at h
  split at h
  next significand dropped habsorb =>
  rw [habsorb] at hlimit
  dsimp only at h
  have hhigh :
    (if negative = true then -(significand : Int) else significand) < significandLimit := by
    split <;> omega
  generalize (if negative = true then -(significand : Int) else significand) = value at h hhigh
  split at h
  · exact absurd h readFraction_ne_int
  · exact absurd h readExponent_ne_int
  · exact absurd h readExponent_ne_int
  · split at h
    · next hkept =>
      obtain ⟨hn, -⟩ := Prod.mk.inj (Except.ok.inj h)
      rw [← Number.int.inj hn]
      simp only [Bool.and_eq_true, decide_eq_true_eq] at hkept
      exact ⟨hkept.1.2, hhigh⟩
    · exact absurd h toNumber_ne_int

theorem keepable_of_readUnsigned (h : readUnsigned negative cs = .ok (.int n, rest)) :
    Keepable n := by
  unfold readUnsigned at h
  split at h
  · simp at h
  · split at h
    · simp at h
    · exact keepable_of_readAfterWhole h
  · split at h
    · exact keepable_of_readAfterWhole h
    · simp at h

theorem keepable_of_readNumber (h : readNumber cs = .ok (.int n, rest)) : Keepable n := by
  unfold readNumber at h
  split at h
  · exact keepable_of_readUnsigned h
  · exact keepable_of_readUnsigned h

theorem keepable_of_readScalar? (h : readScalar? cs = some (.ok (.number (.int n), rest))) :
    Keepable n := by
  unfold readScalar? at h
  split at h
  case h_5 c cs _ _ _ _ =>
    split at h
    · obtain ⟨⟨m, rest'⟩, hread, hr⟩ := map_eq_ok.mp (Option.some.inj h)
      obtain ⟨rfl, rfl⟩ : m = .int n ∧ rest' = rest := by simpa using hr
      exact keepable_of_readNumber hread
    · simp at h
  case h_6 => simp at h
  -- the other scalars are no numbers
  all_goals
    obtain ⟨_, _, hr⟩ := map_eq_ok.mp (Option.some.inj h)
    simp at hr

/-! ## Arrays and objects -/

section Containers

variable {α σ : Type} {fuel : ℕ} {first : Bool} {read : List Char → Except Failure (α × List Char)}
  {step : σ → String → List Char → Except Trouble (σ × List Char)}

/-- Every item of an array was read. -/
theorem read_of_mem_readItems {as : List α}
    (h : readItems read fuel first cs = .ok (as, rest)) :
    ∀ a ∈ as, ∃ cs rest, read cs = .ok (a, rest) := by
  induction fuel generalizing first cs as with
  | zero => simp [readItems] at h
  | succ fuel ih =>
    obtain ⟨⟨more, cs₁⟩, -, h⟩ := bind_eq_ok.mp h
    dsimp only at h
    split at h
    · obtain ⟨⟨a, cs₂⟩, hread, h⟩ := bind_eq_ok.mp h
      obtain ⟨⟨as', cs₃⟩, hitems, h⟩ := bind_eq_ok.mp h
      obtain ⟨rfl, rfl⟩ := Prod.mk.inj (Except.ok.inj h)
      exact List.forall_mem_cons.mpr ⟨⟨cs₁, cs₂, hread⟩, ih hitems⟩
    · obtain ⟨rfl, rfl⟩ := Prod.mk.inj (Except.ok.inj h)
      simp

/-- What every member keeps holds after the last one. -/
theorem readMembers_induction {P : σ → Prop} {s s' : σ}
    (hstep : ∀ s name cs s' rest, P s → step s name cs = .ok (s', rest) → P s')
    (hs : P s) (h : readMembers step fuel first s cs = .ok (s', rest)) : P s' := by
  induction fuel generalizing first cs s with
  | zero => simp [readMembers] at h
  | succ fuel ih =>
    obtain ⟨⟨more, cs₁⟩, -, h⟩ := bind_eq_ok.mp h
    dsimp only at h
    split at h
    · obtain ⟨⟨name, cs₂⟩, -, h⟩ := bind_eq_ok.mp h
      obtain ⟨⟨s₁, cs₃⟩, hread, h⟩ := bind_eq_ok.mp h
      exact ih (hstep _ _ _ _ _ hs hread) h
    · obtain ⟨rfl, rfl⟩ := Prod.mk.inj (Except.ok.inj h)
      exact hs

theorem of_closed {close : List Char → Closing} {r : Except Trouble (α × List Char)} {a : α}
    (h : closed close r = .ok (a, rest)) : ∃ rest, r = .ok (a, rest) := by
  unfold closed at h
  split at h
  · split at h
    · obtain ⟨rfl, -⟩ := Prod.mk.inj (Except.ok.inj h)
      exact ⟨_, rfl⟩
    · simp at h
  · simp at h
  · simp at h

theorem read_of_mem_readArray {as : List α} (h : readArray read cs = .ok (as, rest)) :
    ∀ a ∈ as, ∃ cs rest, read cs = .ok (a, rest) := by
  obtain ⟨rest', hitems⟩ := of_closed h
  exact read_of_mem_readItems (lift_eq_ok.mp hitems)

theorem readObject_induction {P : σ → Prop} {start : σ} {finish : σ → Except Mismatch α} {a : α}
    (hstep : ∀ s name cs s' rest, P s → step s name cs = .ok (s', rest) → P s')
    (hstart : P start) (h : readObject step start finish cs = .ok (a, rest)) :
    ∃ s, P s ∧ finish s = .ok a := by
  obtain ⟨rest', hmembers⟩ := of_closed h
  obtain ⟨⟨s, cs₁⟩, hread, h⟩ := bind_eq_ok.mp hmembers
  refine ⟨s, readMembers_induction hstep hstart hread, ?_⟩
  dsimp only at h
  split at h
  · next b hfinish =>
    obtain ⟨rfl, -⟩ := Prod.mk.inj (Except.ok.inj h)
    exact hfinish
  · simp at h

end Containers

/-! ## Members in order -/

/-- The members are listed by name, each name once. -/
def Listed (members : List (String × α)) : Prop :=
  members.Pairwise fun a b => a.1 < b.1

section Members

variable {α : Type} {name : String} {value : α} {members : List (String × α)}

theorem mem_insertMember {m : String × α} (h : m ∈ insertMember name value members) :
    m = (name, value) ∨ m ∈ members := by
  induction members with
  | nil => simpa [insertMember] using h
  | cons a members ih =>
    obtain ⟨n, v⟩ := a
    rw [insertMember] at h
    split at h
    · simpa using h
    · split at h
      · simp only [List.mem_cons] at h ⊢
        tauto
      · simp only [List.mem_cons] at h ⊢
        tauto

theorem Listed.insertMember (h : Listed members) : Listed (insertMember name value members) := by
  induction members with
  | nil => exact List.pairwise_singleton _ _
  | cons a members ih =>
    obtain ⟨n, v⟩ := a
    obtain ⟨hhead, htail⟩ := List.pairwise_cons.mp h
    rw [Json.insertMember]
    split
    · next hlt =>
      refine List.pairwise_cons.mpr ⟨List.forall_mem_cons.mpr ⟨hlt, fun m hm => ?_⟩, h⟩
      exact lt_trans hlt (hhead m hm)
    · next hge =>
      split
      · next heq =>
        subst heq
        exact List.pairwise_cons.mpr ⟨hhead, htail⟩
      · next hne =>
        refine List.pairwise_cons.mpr ⟨fun m hm => ?_, ih htail⟩
        rcases mem_insertMember hm with rfl | hm
        · exact lt_of_le_of_ne (not_lt.mp hge) (Ne.symm hne)
        · exact hhead m hm

/-- A name above all others is put at the end. -/
theorem insertMember_eq_concat (h : ∀ m ∈ members, m.1 < name) :
    insertMember name value members = members ++ [(name, value)] := by
  induction members with
  | nil => rfl
  | cons a members ih =>
    obtain ⟨n, v⟩ := a
    obtain ⟨hn, hmembers⟩ := List.forall_mem_cons.mp h
    have hn : n < name := hn
    rw [insertMember, if_neg (not_lt_of_gt hn), if_neg (ne_of_gt hn), ih hmembers, List.cons_append]

end Members

/-! ## Values -/

/-- A value that a text can hold, nested at most `depth` deep. -/
inductive Fits : ℕ → Json → Prop
  | null {depth : ℕ} : Fits depth .null
  | bool {depth : ℕ} (b : Bool) : Fits depth (.bool b)
  | int {depth : ℕ} {n : Int} (h : Keepable n) : Fits depth (.num (.int n))
  | float {depth : ℕ} (x : Binary64) : Fits depth (.num (.float x))
  | str {depth : ℕ} (s : String) : Fits depth (.str s)
  | arr {depth : ℕ} {vs : List Json} (h : ∀ v ∈ vs, Fits depth v) : Fits (depth + 1) (.arr vs)
  | obj {depth : ℕ} {ms : List (String × Json)} (hlisted : Listed ms)
    (h : ∀ m ∈ ms, Fits depth m.2) : Fits (depth + 1) (.obj ms)

theorem fits_ofScalar {s : Scalar} {depth : ℕ} (h : readScalar? cs = some (.ok (s, rest))) :
    Fits depth (ofScalar s) := by
  match s with
  | .null => exact .null
  | .flag b => exact .bool b
  | .number (.int n) => exact .int (keepable_of_readScalar? h)
  | .number (.float x) => exact .float x
  | .text s => exact .str s

/-- What the reader gives fits the depth that it was allowed. -/
theorem fits_of_readValue {depth : ℕ} {v : Json} (h : readValue depth cs = .ok (v, rest)) :
    Fits depth v := by
  induction depth using Nat.strongRecOn generalizing cs rest v with
  | _ depth ih =>
    unfold readValue at h
    split at h
    · simp at h
    · cases depth with
      | zero => simp at h
      | succ depth =>
        obtain ⟨⟨vs, cs'⟩, hread, hvs⟩ := map_eq_ok.mp h
        obtain ⟨rfl, rfl⟩ := Prod.mk.inj hvs
        refine .arr fun v hv => ?_
        obtain ⟨cs, rest, hv⟩ := read_of_mem_readArray hread v hv
        exact ih depth (Nat.lt_succ_self depth) hv
    · cases depth with
      | zero => simp at h
      | succ depth =>
        -- every member read so far fits, and they are listed
        obtain ⟨ms, ⟨hlisted, hfits⟩, hms⟩ :=
          readObject_induction (P := fun ms => Listed ms ∧ ∀ m ∈ ms, Fits depth m.2)
            (fun ms name cs ms' rest hms hstep => by
              obtain ⟨⟨v, cs'⟩, hread, hms'⟩ := bind_eq_ok.mp hstep
              obtain ⟨rfl, rfl⟩ := Prod.mk.inj (Except.ok.inj hms')
              obtain ⟨cs'', -, hread⟩ := bind_eq_ok.mp (lift_eq_ok.mp hread)
              refine ⟨hms.1.insertMember, fun m hm => ?_⟩
              rcases mem_insertMember hm with rfl | hm
              · exact ih depth (Nat.lt_succ_self depth) hread
              · exact hms.2 m hm)
            ⟨List.Pairwise.nil, by simp⟩ h
        obtain rfl := Except.ok.inj hms
        exact .obj hlisted hfits
    · split at h
      · next r hr =>
        obtain ⟨⟨s, cs'⟩, rfl, hs⟩ := map_eq_ok.mp h
        obtain ⟨rfl, rfl⟩ := Prod.mk.inj hs
        exact fits_ofScalar hr
      · simp at h

end ChangeRelay.Json
