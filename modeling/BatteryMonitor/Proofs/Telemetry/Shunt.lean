import BatteryMonitor.Proofs.Reading
import BatteryMonitor.Proofs.Telemetry.Curve
import BatteryMonitor.Telemetry.Shunt

/-!
# The charge behind a shunt monitor follows the voltage

A reading has the part of the full capacity that the discharge curve gives for the voltage, rounded
three more times (`Shunt.capacityAt`).  No rounding turns the order around, and those of an empty and
of a full pack are exact, as long as the capacity has 31 bits.  So the current capacity stays between
zero and the full one, and it never falls when the voltage rises, across the points of the curve as
well as between them (`Shunt.charge_follows_voltage`).
-/

namespace BatteryMonitor

open Effect Binary64 Number

namespace Shunt

variable {s : Shunt} {sensor : Sensor} {voltage current : Value} {r : Reading} {full : Int}
  {c d : ℚ} {x : Binary64}

/-! ### The capacity at a charge -/

/-- The part of the full capacity at a charge in percent, with all roundings. -/
def capacityAt (full : Int) (c : ℚ) : Int :=
  Rounding.toNearest (nearestDouble (nearestDouble (full * c) / 100))

theorem capacityAt_le (hfull : 0 ≤ full) (h : c ≤ d) : capacityAt full c ≤ capacityAt full d := by
  have hfull' : (0 : ℚ) ≤ full := by exact_mod_cast hfull
  have hproduct := nearestDouble_mono (mul_le_mul_of_nonneg_left h hfull')
  exact Rounding.toNearest_le (nearestDouble_mono (by gcongr))

theorem capacityAt_zero (full : Int) : capacityAt full 0 = 0 := by
  rw [capacityAt, mul_zero, nearestDouble_zero, zero_div, nearestDouble_zero]
  exact Rounding.toNearest_intCast 0

theorem capacityAt_hundred (hfull : 0 ≤ full ∧ full < 2 ^ 31) : capacityAt full 100 = full := by
  have hproduct : IsDouble ((full * 100 : Int) : ℚ) := isDouble_intCast (by omega)
  have hfull' : IsDouble full := isDouble_intCast (by omega)
  push_cast at hproduct
  rw [capacityAt, nearestDouble_of_isDouble hproduct, mul_div_cancel_right₀ _ (by norm_num),
    nearestDouble_of_isDouble hfull', Rounding.toNearest_intCast]

theorem capacityAt_range (hfull : 0 ≤ full ∧ full < 2 ^ 31) (hc : 0 ≤ c ∧ c ≤ 100) :
    0 ≤ capacityAt full c ∧ capacityAt full c ≤ full := by
  have hlower := capacityAt_le hfull.1 hc.1
  have hupper := capacityAt_le hfull.1 hc.2
  rw [capacityAt_zero] at hlower
  rw [capacityAt_hundred hfull] at hupper
  exact ⟨hlower, hupper⟩

theorem capacityAt_spec (hfull : 0 ≤ full ∧ full < 2 ^ 31) (hx : x.value = .real c)
    (hc : 0 ≤ c ∧ c ≤ 100) : ∃ product quotient, (int full).mul (.double x) = .ok product ∧
      product.div (.double 100) = .ok quotient ∧ quotient.round = .ok (capacityAt full c) := by
  have hvalue : (ofInt full).value = .real full := value_ofInt (by omega)
  have hhundred : (100 : Binary64).value = .real 100 := value_ofInt (m := 100) (by decide)
  have htop : IsDouble ((full * 100 : Int) : ℚ) := isDouble_intCast (by omega)
  push_cast at htop
  have hfull' : (0 : ℚ) ≤ full := by exact_mod_cast hfull.1
  have hnonneg := mul_nonneg hfull' hc.1
  have hle := mul_le_mul_of_nonneg_left hc.2 hfull'
  have hproduct := (abs_le_abs_of_nonneg hnonneg hle).trans_lt htop.lt_beyond
  have hquotient : |nearestDouble (full * c) / 100| < beyond :=
    abs_div_lt_beyond (by norm_num) (isDouble_nearestDouble hproduct).lt_beyond
  have hmul := value_mul_of_lt hvalue hx hproduct
  have hdiv := value_div_of_lt hmul hhundred hquotient
  refine ⟨_, _, combine_double (toDouble_of_value hvalue),
    double_div rfl hhundred (by norm_num), ?_⟩
  rw [Binary64.round, toInteger, hdiv]
  rfl

/-! ### Readings -/

/-- **A reading has the capacity that its voltage stands for.** -/
theorem reading_capacity (hcapacity : s.capacity.Alike (.int full))
    (hfull : 0 ≤ full ∧ full < 2 ^ 31) (h : s.reading voltage current = .ok r) :
    ∃ v, voltage.number = .ok v ∧
      r.currentCapacity = .int (capacityAt full (Curve.charge v.value)) ∧
      r.maxCapacity = s.capacity := by
  unfold reading at h
  obtain ⟨average, -, h⟩ := bind_eq_ok.1 h
  obtain ⟨charging, -, h⟩ := bind_eq_ok.1 h
  obtain ⟨v, hv, h⟩ := bind_eq_ok.1 h
  obtain ⟨x, hx, h⟩ := bind_eq_ok.1 h
  obtain ⟨capacity, hnumber, h⟩ := bind_eq_ok.1 h
  obtain ⟨product, hproduct, h⟩ := bind_eq_ok.1 h
  obtain ⟨quotient, hquotient, h⟩ := bind_eq_ok.1 h
  obtain ⟨current', hround, h⟩ := bind_eq_ok.1 h
  obtain ⟨average', -, h⟩ := bind_eq_ok.1 h
  obtain ⟨instant, -, h⟩ := bind_eq_ok.1 h
  cases h
  refine ⟨v, hv, ?_, rfl⟩
  obtain ⟨y, hy, hvalue⟩ := Curve.percent_value v
  obtain ⟨product₀, quotient₀, hproduct₀, hquotient₀, hround₀⟩ :=
    capacityAt_spec hfull hvalue (Curve.charge_range v.value)
  cases hcapacity.number.symm.trans hnumber
  cases hy.symm.trans hx
  cases hproduct₀.symm.trans hproduct
  cases hquotient₀.symm.trans hquotient
  cases hround₀.symm.trans hround
  rfl

/-- The battery of a full capacity is read from a sensor, whatever was read before. -/
def Reads (full : Int) (sensor : Sensor) (r : Reading) : Prop :=
  ∃ s : Shunt, s.capacity.Alike (.int full) ∧ ∃ rs, (s.read sensor).1 = .ok rs ∧ r ∈ rs

theorem reads_spec (hfull : 0 ≤ full ∧ full < 2 ^ 31) (h : Reads full sensor r) :
    ∃ voltage v, sensor.voltage = .ok voltage ∧ voltage.number = .ok v ∧
      r.currentCapacity = .int (capacityAt full (Curve.charge v.value)) ∧
      r.maxCapacity.Alike (.int full) := by
  obtain ⟨s, hcapacity, rs, hread, hr⟩ := h
  unfold read at hread
  split at hread
  · cases hread
  rename_i voltage hvoltage
  split at hread
  · cases hread
  rename_i current _
  obtain ⟨r', hreading, hread⟩ := bind_eq_ok.1 hread
  cases hread
  cases List.mem_singleton.1 hr
  obtain ⟨v, hv, hcurrent, hmax⟩ :=
    reading_capacity (s := { s with recent := push s.recent current }) hcapacity hfull hreading
  exact ⟨voltage, v, hvoltage, hv, hcurrent, hmax ▸ hcapacity⟩

/-- **The charge follows the voltage.**  On the curve: the percentage is always there, between 0 and
100, and grows with the voltage.  A voltage strictly between the ends is on a segment, whose points
are next to each other, and at a point the percentage is the tabulated one.  In the readings: the
current capacity is between zero and the full one, and grows with the voltage. -/
theorem charge_follows_voltage (hfull : 0 ≤ full ∧ full < 2 ^ 31) :
    (∀ v w : Number, v.value.le w.value = true → ∃ x y p q, Curve.percent v = .ok x ∧
      Curve.percent w = .ok y ∧ x.value = .real p ∧ y.value = .real q ∧
      0 ≤ p ∧ p ≤ q ∧ q ≤ 100) ∧
    (∀ v : Number, Curve.emptyVoltage.value.lt v.value = true →
      v.value.lt Curve.fullVoltage.value = true →
      ∃ before high low after, Curve.points = before ++ high :: low :: after ∧
        low.voltage.value.le v.value = true ∧ v.value.le high.voltage.value = true ∧
        Curve.percent v = Curve.interpolate high low v) ∧
    (∀ point ∈ Curve.points, ∀ v : Number, v.value = point.voltage.value →
      ∃ x, Curve.percent v = .ok x ∧ x.value = .real point.percent) ∧
    (∀ sensor r, Reads full sensor r → ∃ n, r.currentCapacity = .int n ∧ 0 ≤ n ∧ n ≤ full ∧
      r.maxCapacity.Alike (.int full)) ∧
    (∀ sensor sensor' voltage voltage' r r', sensor.voltage = .ok voltage →
      sensor'.voltage = .ok voltage' → voltage.atMost voltage' = .ok true →
      Reads full sensor r → Reads full sensor' r' →
      ∃ n n', r.currentCapacity = .int n ∧ r'.currentCapacity = .int n' ∧ n ≤ n') := by
  refine ⟨fun v w hle => ?_, fun v hempty hlt => ?_, fun point hpoint v hv => ?_,
    fun sensor r h => ?_, fun sensor sensor' voltage voltage' r r' hvoltage hvoltage' hle h h' => ?_⟩
  · obtain ⟨x, hx, hp⟩ := Curve.percent_value v
    obtain ⟨y, hy, hq⟩ := Curve.percent_value w
    exact ⟨x, y, _, _, hx, hy, hp, hq, (Curve.charge_range _).1, Curve.charge_mono hle,
      (Curve.charge_range _).2⟩
  · exact Curve.percent_inside hempty hlt
  · obtain ⟨x, hx, hvalue⟩ := Curve.percent_value v
    rw [hv, Curve.charge_point hpoint] at hvalue
    exact ⟨x, hx, hvalue⟩
  · obtain ⟨voltage, v, -, -, hcurrent, hmax⟩ := reads_spec hfull h
    obtain ⟨hlower, hupper⟩ := capacityAt_range hfull (Curve.charge_range v.value)
    exact ⟨_, hcurrent, hlower, hupper, hmax⟩
  · obtain ⟨_, v, hvoltage₀, hv, hcurrent, -⟩ := reads_spec hfull h
    obtain ⟨_, w, hvoltage₀', hw, hcurrent', -⟩ := reads_spec hfull h'
    cases hvoltage.symm.trans hvoltage₀
    cases hvoltage'.symm.trans hvoltage₀'
    have hvalue : v.value.le w.value = true := by
      rw [Value.atMost, hv, hw] at hle
      exact Except.ok.inj hle
    exact ⟨_, _, hcurrent, hcurrent', capacityAt_le hfull.1 (Curve.charge_mono hvalue)⟩

/-- Two voltages on both sides of the point at 11.8 volts. -/
theorem charge_follows_voltage_acrossPoint :
    let sensor (x : Binary64) : Sensor :=
      { voltage := .ok (.float x), current := .ok (.int (-500)) }
    ∃ r r' n n', Reads 3400 (sensor 11.75) r ∧ Reads 3400 (sensor 11.85) r' ∧
      r.currentCapacity = .int n ∧ r'.currentCapacity = .int n' ∧ n ≤ n' := by
  intro sensor
  have hreads {x : Binary64}
      (h : (({} : Shunt).read (sensor x)).1.toOption.map (·.length) = some 1) :
      ∃ r, Reads 3400 (sensor x) r := by
    cases hread : (({} : Shunt).read (sensor x)).1 with
    | error fault => rw [hread] at h; cases h
    | ok rs =>
      rw [hread] at h
      obtain ⟨r, rfl⟩ := List.length_eq_one_iff.1 (Option.some.inj h)
      exact ⟨r, {}, .refl _, [r], hread, List.mem_singleton_self r⟩
  obtain ⟨r, h⟩ := hreads (x := 11.75) (by decide +kernel)
  obtain ⟨r', h'⟩ := hreads (x := 11.85) (by decide +kernel)
  have hle : (Value.float 11.75).atMost (.float 11.85) = .ok true :=
    eq_ok_of_toOption (by decide +kernel)
  have hcapacity : (0 : Int) ≤ 3400 ∧ (3400 : Int) < 2 ^ 31 := by decide
  obtain ⟨-, -, -, -, hfollows⟩ := charge_follows_voltage hcapacity
  obtain ⟨n, n', hn, hn', hgrows⟩ := hfollows _ _ _ _ r r' rfl rfl hle h h'
  exact ⟨r, r', n, n', h, h', hn, hn', hgrows⟩

end Shunt

end BatteryMonitor
