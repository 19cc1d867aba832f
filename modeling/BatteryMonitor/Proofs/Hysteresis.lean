import BatteryMonitor.Proofs.Effect
import BatteryMonitor.Proofs.Health

/-!
# Hysteresis

Whether a battery is found to need replacement depends, through the latch, on all readings that came
before.  Over a row of readings, the last one first, the latch has a closed form: it is set iff some
rated reading was at or below the trip ratio and every rated reading since then was at or below the
release ratio (`Reading.Worn`, `Reading.latched_iff`), readings that are not rated making no
difference.  The induction along the row goes through because a reading that trips also holds
(`Reading.isWithin_release`), so that it does not matter at which of several such readings the latch
was set.

`Reading.hysteresis` says from this what the verdict on the last reading is.
-/

namespace BatteryMonitor

namespace Reading

variable {r : Reading} {earlier rs : List Reading} {health health₀ : Health}
  {latched latched₀ : Bool}

/-- The verdict on the last of a row of readings, and the latch after it, from a latch that is not
set.  The last reading comes first. -/
def verdict : List Reading → Except Fault (Health × Bool)
  | [] => .ok (.unknown, false)
  | r :: earlier => do
    let (_, latched) ← verdict earlier
    r.classify latched

/-- The battery is there, has not failed, and has a designed capacity. -/
def isRated (r : Reading) : Bool :=
  r.isPresent.truth && !r.hasPermanentFailure && r.designCapacity.truth

/-- The capacity ratio is known and at most `limit`, and the battery is young. -/
def isWithin (limit : Binary64) (r : Reading) : Bool :=
  match r.capacityRatio, r.cycleCount.less (.int youngCycles) with
  | .ok ratio, .ok young => ratio.value.le limit.value && young
  | _, _ => false

/-- **The battery of a row of readings needs replacement**: a rated reading tripped, and every rated
one since then has held. -/
def Worn (rs : List Reading) : Prop :=
  ∃ later trip before, rs = later ++ trip :: before ∧ trip.isRated ∧ trip.isWithin tripRatio ∧
    ∀ q ∈ later, q.isRated → q.isWithin releaseRatio

/-! ### One reading -/

theorem verdict_cons (h : verdict (r :: earlier) = .ok (health, latched)) :
    ∃ health₀ latched₀, verdict earlier = .ok (health₀, latched₀) ∧
      r.classify latched₀ = .ok (health, latched) := by
  rw [verdict] at h
  cases hearlier : verdict earlier with
  | error fault => rw [hearlier] at h; cases h
  | ok p => rw [hearlier] at h; exact ⟨p.1, p.2, rfl, h⟩

theorem rate_eq (ratio : Binary64) (young latched : Bool) : rate ratio young latched =
    let worn := ratio.value.le (if latched then releaseRatio else tripRatio).value && young
    (.certain (if worn then .fair else .good), worn) := by
  unfold rate
  extract_lets limit worn
  cases hworn : worn <;> simp_all [worn, limit]

theorem isWithin_release (h : r.isWithin tripRatio) : r.isWithin releaseRatio := by
  unfold isWithin at h ⊢
  split at h
  · rw [Bool.and_eq_true] at h ⊢
    exact ⟨Extended.le_trans h.1 tripRatio_le_releaseRatio, h.2⟩
  · cases h

theorem classify_unrated (hr : ¬ r.isRated) (h : r.classify latched₀ = .ok (health, latched)) :
    latched = latched₀ ∧ health.rating =
      if r.isPresent.truth && r.hasPermanentFailure then some .poor else none := by
  rw [classify_eq] at h
  cases hpresent : r.isPresent.truth with
  | false =>
    simp only [hpresent, Bool.not_false, if_true] at h
    cases h
    exact ⟨rfl, rfl⟩
  | true =>
    simp only [hpresent, Bool.not_true, Bool.false_eq_true, if_false] at h
    cases hfailed : r.hasPermanentFailure with
    | true =>
      simp only [hfailed, if_true] at h
      cases h
      exact ⟨rfl, rfl⟩
    | false =>
      have hdesign : (!r.designCapacity.truth) = true := by
        simpa [isRated, hpresent, hfailed] using hr
      simp only [hfailed, Bool.false_eq_true, if_false, hdesign, if_true] at h
      cases h
      exact ⟨rfl, rfl⟩

theorem classify_rated (hr : r.isRated) (h : r.classify latched₀ = .ok (health, latched)) :
    latched = (r.isWithin tripRatio || latched₀ && r.isWithin releaseRatio) ∧
      health = .certain (if latched then .fair else .good) := by
  simp only [isRated, Bool.and_eq_true, Bool.not_eq_true'] at hr
  obtain ⟨⟨hpresent, hfailed⟩, hdesign⟩ := hr
  rw [classify_eq] at h
  simp only [hpresent, hfailed, hdesign, Bool.not_true, Bool.false_eq_true, if_false] at h
  cases hratio : r.capacityRatio with
  | error fault => rw [hratio] at h; cases h
  | ok ratio =>
    cases hyoung : r.cycleCount.less (.int youngCycles) with
    | error fault => rw [hratio, hyoung] at h; cases h
    | ok young =>
      rw [hratio, hyoung] at h
      have hrate : rate ratio young latched₀ = (health, latched) := Except.ok.inj h
      have hwithin (limit : Binary64) :
          r.isWithin limit = (ratio.value.le limit.value && young) := by
        rw [isWithin, hratio, hyoung]
      rw [rate_eq, ← hwithin] at hrate
      obtain ⟨hhealth, hlatched⟩ := Prod.mk.inj hrate
      refine ⟨?_, by rw [← hhealth, hlatched]⟩
      -- the latch only chooses between two limits, and the lower one implies the higher one
      have hhold : r.isWithin tripRatio = true → r.isWithin releaseRatio = true :=
        isWithin_release
      rw [← hlatched]
      cases latched₀ with
      | false => simp
      | true => cases htrip : r.isWithin tripRatio <;> simp_all

/-! ### A row of readings -/

theorem worn_cons : Worn (r :: earlier) ↔ (r.isRated ∧ r.isWithin tripRatio) ∨
    (r.isRated → r.isWithin releaseRatio) ∧ Worn earlier := by
  constructor
  · rintro ⟨later, trip, before, heq, hrated, htrip, hhold⟩
    cases later with
    | nil =>
      cases heq
      exact .inl ⟨hrated, htrip⟩
    | cons q later =>
      cases heq
      exact .inr ⟨hhold r List.mem_cons_self, later, trip, before, rfl, hrated, htrip,
        fun q hq => hhold q (List.mem_cons_of_mem _ hq)⟩
  · rintro (⟨hrated, htrip⟩ | ⟨hr, later, trip, before, rfl, hrated, htrip, hhold⟩)
    · exact ⟨[], r, earlier, rfl, hrated, htrip, fun _ hq => absurd hq List.not_mem_nil⟩
    · refine ⟨r :: later, trip, before, rfl, hrated, htrip, fun q hq => ?_⟩
      rcases List.mem_cons.1 hq with rfl | hq
      · exact hr
      · exact hhold q hq

/-- **The latch in closed form**: it is set iff the battery is worn. -/
theorem latched_iff (h : verdict rs = .ok (health, latched)) : latched ↔ Worn rs := by
  induction rs generalizing health latched with
  | nil =>
    cases h
    refine iff_of_false Bool.false_ne_true ?_
    rintro ⟨later, trip, before, heq, -⟩
    exact absurd heq.symm (List.append_ne_nil_of_right_ne_nil later (List.cons_ne_nil _ _))
  | cons r earlier ih =>
    obtain ⟨health₀, latched₀, hearlier, hlast⟩ := verdict_cons h
    rw [worn_cons, ← ih hearlier]
    by_cases hr : r.isRated = true
    · obtain ⟨rfl, -⟩ := classify_rated hr hlast
      rw [Bool.or_eq_true, Bool.and_eq_true, and_comm (a := latched₀ = true)]
      simp only [hr, true_and, true_imp_iff]
    · obtain ⟨rfl, -⟩ := classify_unrated hr hlast
      simp [hr]

/-- **Hysteresis.**  After any row of readings that were classified without a fault, from a latch
that was not set: the verdict on the last one is fair iff it is rated and the battery is worn, that
is, iff some rated reading of the row was at or below 80% after less than 300 cycles and no rated
one since then exceeded 83% or had that many cycles; any other rated reading is good.  A reading
that is not rated is neither, is poor iff it tells of a permanent failure of a battery that is
there, and leaves the latch as it was.  After one that is rated the latch is set iff it was fair. -/
theorem hysteresis (hearlier : verdict earlier = .ok (health₀, latched₀))
    (h : verdict (r :: earlier) = .ok (health, latched)) :
    (health.rating = some .fair ↔ r.isRated ∧ ∃ later trip before,
      r :: earlier = later ++ trip :: before ∧ trip.isRated ∧ trip.isWithin tripRatio ∧
        ∀ q ∈ later, q.isRated → q.isWithin releaseRatio) ∧
    (r.isRated → health.rating ≠ some .fair → health.rating = some .good) ∧
    (¬ r.isRated → health.rating ≠ some .fair ∧ health.rating ≠ some .good ∧
      (health.rating = some .poor ↔ r.isPresent.truth ∧ r.hasPermanentFailure) ∧
      latched = latched₀) ∧
    (r.isRated → (latched ↔ health.rating = some .fair)) := by
  have hworn : latched ↔ Worn (r :: earlier) := latched_iff h
  obtain ⟨health₁, latched₁, hearlier₁, hlast⟩ := verdict_cons h
  obtain ⟨rfl, rfl⟩ : health₀ = health₁ ∧ latched₀ = latched₁ := by
    simpa using hearlier.symm.trans hearlier₁
  by_cases hr : r.isRated = true
  · obtain ⟨-, hhealth⟩ := classify_rated hr hlast
    have hfair : health.rating = some .fair ↔ latched := by
      rw [hhealth]
      cases latched <;> decide
    refine ⟨?_, fun _ hnot => ?_, fun hnot => absurd hr hnot, fun _ => hfair.symm⟩
    · rw [hfair, hworn]
      exact (and_iff_right hr).symm
    · rw [hhealth, eq_false_of_ne_true (mt hfair.2 hnot)]
      rfl
  · obtain ⟨hlatched, hrating⟩ := classify_unrated hr hlast
    have hpoor : health.rating = some .poor ↔ r.isPresent.truth ∧ r.hasPermanentFailure := by
      rw [hrating, ← Bool.and_eq_true]
      split <;> simp_all
    have hneither : health.rating ≠ some .fair ∧ health.rating ≠ some .good := by
      rw [hrating]
      split <;> decide
    exact ⟨iff_of_false hneither.1 fun hrated => hr hrated.1, fun hrated => absurd hrated hr,
      fun _ => ⟨hneither.1, hneither.2, hpoor, hlatched⟩, fun hrated => absurd hrated hr⟩

/-- A battery that was found at 79% and is found at 82%, having been taken out in between. -/
def noisyRow : List Reading :=
  [{ designCapacity := .int 10000, maxCapacity := .int 8000 }, { isPresent := .bool false },
    { designCapacity := .int 10000, maxCapacity := .int 7700 }]

/-- It is still fair, though the last reading alone would be good. -/
theorem hysteresis_noisyRow :
    verdict noisyRow.tail = .ok (.unknown, true) ∧ verdict noisyRow = .ok (.certain .fair, true) ∧
    verdict (noisyRow.take 1) = .ok (.certain .good, false) ∧ Worn noisyRow := by
  have hearlier : verdict noisyRow.tail = .ok (.unknown, true) :=
    eq_ok_of_toOption (by decide +kernel)
  have h : verdict noisyRow = .ok (.certain .fair, true) := eq_ok_of_toOption (by decide +kernel)
  obtain ⟨hfair, -⟩ := hysteresis (r := noisyRow.head (List.cons_ne_nil _ _)) hearlier h
  exact ⟨hearlier, h, eq_ok_of_toOption (by decide +kernel), (hfair.1 rfl).2⟩

end Reading

end BatteryMonitor
