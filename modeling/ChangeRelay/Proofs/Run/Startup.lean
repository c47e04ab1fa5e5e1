import ChangeRelay.Run.Relay
import Mathlib.Algebra.Group.Nat.Defs
import Mathlib.Data.List.Basic
/-!
# Starting what was validated

A configuration is checked twice: as a whole before it is used, and in its publishing section when a
relay is started. Both checks refuse the same sections with the same errors. What they let pass can
be started, unless the queue is to hold more events than any queue can: neither check looks at the
upper end of the capacity.
-/

namespace ChangeRelay

namespace Config

variable {c : Config}

/-- The checks of a publishing section, in order. -/
def Publishing.checks (p : Publishing) : Except Error Unit :=
  p.checkCapacity.bind fun _ => p.placementKey.map fun _ => ()

/-- A configuration is valid when it has brokers and its publishing section passes its checks. -/
theorem validate_eq (c : Config) : c.validate =
    if c.brokers.addresses.isEmpty then .error (.config "kafka.brokers must not be empty")
    else c.publishing.checks := by
  unfold validate Publishing.checks
  by_cases haddresses : c.brokers.addresses.isEmpty = true
  · rw [if_pos haddresses, if_pos haddresses]
    rfl
  · rw [if_neg haddresses, if_neg haddresses]
    cases c.publishing.checkCapacity with
    | error e => rfl
    | ok _ => cases c.publishing.placementKey <;> rfl

/-- A section passes its checks when the queue holds something and placement by columns has some. -/
theorem checks_eq_ok_iff (p : Publishing) : p.checks = .ok () ↔
    p.queueCapacity ≠ 0 ∧ (p.placementKind = .column → p.placementColumns ≠ []) := by
  unfold Publishing.checks Publishing.checkCapacity Publishing.placementKey
  by_cases hcapacity : p.queueCapacity = 0
  · simp [hcapacity, Except.bind]
  · rw [if_neg hcapacity]
    cases p.placementKind with
    | database | table | primaryKey => simp [hcapacity, Except.bind, Except.map]
    | column =>
      cases p.placementColumns with
      | nil => simp [Except.bind, Except.map]
      | cons name names => simp [hcapacity, Except.bind, Except.map]

theorem checks_of_validate (h : c.validate = .ok ()) : c.publishing.checks = .ok () := by
  rw [validate_eq] at h
  by_cases haddresses : c.brokers.addresses.isEmpty = true
  · simp [haddresses] at h
  · rwa [if_neg haddresses] at h

theorem validate_of_addresses (h : c.brokers.addresses ≠ []) :
    c.validate = c.publishing.checks := by
  rw [validate_eq, if_neg]
  simpa using h

end Config

namespace Relay

/-- A relay is started after the checks of its section and one of its capacity. -/
theorem start_cases (config : Config.Publishing) (broker : Broker) (resume : Option Position)
    (keepsValues : Bool) :
    (∃ e, config.checks = .error e ∧ start config broker resume keepsValues = .error (.error e)) ∨
      config.checks = .ok () ∧
        ((2 ^ 61 - 1 < config.queueCapacity.toNat ∧
            start config broker resume keepsValues = .error .capacityTooLarge) ∨
          (config.queueCapacity.toNat ≤ 2 ^ 61 - 1 ∧
            ∃ r, start config broker resume keepsValues = .ok r)) := by
  have hlimit : capacityLimit = 2 ^ 61 - 1 := by decide
  unfold start Config.Publishing.checks Config.Publishing.terms Config.Publishing.plan
  cases config.checkCapacity with
  | error e => exact .inl ⟨e, rfl, rfl⟩
  | ok _ =>
    cases config.placementKey with
    | error e => exact .inl ⟨e, rfl, rfl⟩
    | ok key =>
      simp only [bind, Except.bind, Except.mapError, hlimit]
      by_cases hlarge : 2 ^ 61 - 1 < config.queueCapacity.toNat
      · rw [if_pos hlarge]
        exact .inr ⟨rfl, .inl ⟨hlarge, rfl⟩⟩
      · rw [if_neg hlarge]
        exact .inr ⟨rfl, .inr ⟨Nat.not_lt.mp hlarge, _, rfl⟩⟩

/-- A valid configuration can be started if and only if its queue is to hold at most 2^61 - 1
events, and that is all that can be wrong with it. Of a configuration with brokers, whatever makes
it invalid is refused at the start with the same error, and nothing else is: a queue that holds
nothing, and placement by columns without any. -/
theorem start_of_validate (c : Config) (broker : Broker) (resume : Option Position)
    (keepsValues : Bool) :
    (c.validate = .ok () →
      ((∃ r, start c.publishing broker resume keepsValues = .ok r) ↔
          c.publishing.queueCapacity.toNat ≤ 2 ^ 61 - 1) ∧
        ∀ failure, start c.publishing broker resume keepsValues = .error failure →
          failure = .capacityTooLarge) ∧
    (c.brokers.addresses ≠ [] →
      (∀ e, c.validate = .error e ↔
        start c.publishing broker resume keepsValues = .error (.error e)) ∧
      (c.validate = .ok () ↔ c.publishing.queueCapacity ≠ 0 ∧
        (c.publishing.placementKind = .column → c.publishing.placementColumns ≠ []))) := by
  have hcases := start_cases c.publishing broker resume keepsValues
  generalize start c.publishing broker resume keepsValues = started at hcases
  refine ⟨fun hvalid => ?_, fun haddresses => ?_⟩
  · have hchecks := Config.checks_of_validate hvalid
    rcases hcases with ⟨e, herror, -⟩ | ⟨-, ⟨hlarge, rfl⟩ | ⟨hsmall, r, rfl⟩⟩
    · simp [hchecks] at herror
    · exact ⟨⟨by simp, fun hsmall => absurd hsmall (Nat.not_le.mpr hlarge)⟩,
        fun failure h => (Except.error.inj h).symm⟩
    · exact ⟨⟨fun _ => hsmall, fun _ => ⟨r, rfl⟩⟩, by simp⟩
  · rw [Config.validate_of_addresses haddresses]
    refine ⟨fun e => ?_, Config.checks_eq_ok_iff _⟩
    rcases hcases with ⟨e', herror, rfl⟩ | ⟨hchecks, ⟨-, rfl⟩ | ⟨-, r, rfl⟩⟩
    · simp [herror]
    · simp [hchecks]
    · simp [hchecks]

/-- A configuration with a broker that places rows by two columns, and with the given capacity. -/
def sized (capacity : UInt64) : Config where
  brokers := { addresses := ["localhost:9092"] }
  publishing := {
    placementKind := .column
    placementColumns := ["tenant_id", "id"]
    queueCapacity := capacity }

theorem validate_sized {capacity : UInt64} (h : capacity ≠ 0) :
    (sized capacity).validate = .ok () := by
  rw [Config.validate_of_addresses (List.cons_ne_nil _ _), Config.checks_eq_ok_iff]
  exact ⟨h, fun _ => List.cons_ne_nil _ _⟩

/-- With the largest capacity it can be started, and without any it is refused. -/
theorem start_of_largest_and_least :
    ((sized (.ofNat (2 ^ 61 - 1))).validate = .ok () ∧
      ∃ r, start (sized (.ofNat (2 ^ 61 - 1))).publishing {} none false = .ok r) ∧
    (sized 0).brokers.addresses ≠ [] ∧ start (sized 0).publishing {} none false =
      .error (.error (.config "producer.queue_capacity must be positive")) := by
  have hvalid : (sized (.ofNat (2 ^ 61 - 1))).validate = .ok () := validate_sized (by decide)
  have haddresses : (sized 0).brokers.addresses ≠ [] := List.cons_ne_nil _ _
  obtain ⟨hstart, -⟩ := (start_of_validate (sized (.ofNat (2 ^ 61 - 1))) {} none false).1 hvalid
  exact ⟨⟨hvalid, hstart.mpr (by decide)⟩, haddresses,
    (((start_of_validate (sized 0) {} none false).2 haddresses).1 _).mp rfl⟩

/-- A capacity above that passes validation and cannot be started. -/
theorem valid_capacity_too_large : (sized (.ofNat (2 ^ 61))).validate = .ok () ∧
    start (sized (.ofNat (2 ^ 61))).publishing {} none false = .error .capacityTooLarge := by
  have hvalid : (sized (.ofNat (2 ^ 61))).validate = .ok () := validate_sized (by decide)
  have hchecks := Config.checks_of_validate hvalid
  refine ⟨hvalid, ?_⟩
  rcases start_cases (sized (.ofNat (2 ^ 61))).publishing {} none false with
    ⟨e, herror, -⟩ | ⟨-, ⟨-, hlarge⟩ | ⟨hsmall, -⟩⟩
  · exact absurd (hchecks.symm.trans herror) (by simp)
  · exact hlarge
  · exact absurd hsmall (by decide)

end Relay

end ChangeRelay
