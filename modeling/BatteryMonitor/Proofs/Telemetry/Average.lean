import BatteryMonitor.Proofs.Telemetry.Shunt
import BatteryMonitor.Proofs.Ties
import Mathlib.Data.List.DropRight

/-!
# The average current of a shunt monitor

A source is read again and again, and some of the reads fail, before the first measurement or between
the two.  What is left of a history of reads is the window of the currents that were delivered last.

* `Shunt.count_read`, `Shunt.count_readAll` : what one read preserves and what any number of them do.
  A read that fails leaves the window alone, and one that succeeds moves it on by one sample.
* `Shunt.average_spec` : the mean of the window is computed with one rounding to a double and one to
  an integer, and yet is the integer nearest to the exact mean, as long as the samples have 31 bits.
* `Shunt.averages_last_samples` : so the average of a reading is the mean of the last twelve
  samples, or of all of them while there are fewer.  Nothing but the capacity can keep the reading back.
-/

namespace BatteryMonitor

open Effect Binary64

/-! ### What a sensor tells -/

namespace Sensor

variable {sensor : Sensor} {reason : String} {v : Number} {n : Int}

/-- Why a measurement fails, if one does; the voltage is measured first. -/
def failure? (sensor : Sensor) : Option String :=
  match sensor.voltage, sensor.current with
  | .error reason, _ => some reason
  | .ok _, .error reason => some reason
  | .ok _, .ok _ => none

/-- Both measurements succeed, and the current is an integer. -/
def Delivers (sensor : Sensor) (v : Number) (n : Int) : Prop :=
  ∃ voltage current, sensor.voltage = .ok voltage ∧ voltage.number = .ok v ∧
    sensor.current = .ok current ∧ current.Alike (.int n)

/-- The current that is delivered, if it is an integer. -/
def sample? (sensor : Sensor) : Option Int :=
  match sensor.voltage, sensor.current with
  | .ok _, .ok current =>
    match current.number? with
    | some (.int n) => some n
    | _ => none
  | _, _ => none

/-- A measurement fails, or a number and an integer of 31 bits are delivered. -/
def IsProper (sensor : Sensor) : Prop :=
  (∃ reason, sensor.failure? = some reason) ∨ ∃ v n, sensor.Delivers v n ∧ n.natAbs < 2 ^ 31

theorem sample?_of_failure (h : sensor.failure? = some reason) : sensor.sample? = none := by
  unfold failure? at h
  unfold sample?
  split at h <;> simp_all

theorem Delivers.sample?_eq (h : sensor.Delivers v n) : sensor.sample? = some n := by
  obtain ⟨voltage, current, hvoltage, -, hcurrent, halike⟩ := h
  rw [sample?, hvoltage, hcurrent]
  dsimp only
  rw [halike.number?]
  rfl

end Sensor

namespace Number

theorem exists_within {c : Number} {q : ℚ} {k : Nat} (hk : k ≤ 1023) (hvalue : c.value = .real q)
    (hq : |q| ≤ 2 ^ k) : ∃ x, c.toDouble = .ok x ∧ x.Within k := by
  cases c with
  | double x => exact ⟨x, rfl, q, hvalue, hq⟩
  | int m =>
    obtain rfl := Extended.real.inj hvalue
    have hm : m.natAbs ≤ Nat.pow 2 k := by
      zify
      exact_mod_cast hq
    obtain ⟨x, p, hx, hp, hle, -⟩ := toDouble_int hk hm
    exact ⟨x, hx, p, hp, hle⟩

end Number

namespace Shunt

variable {s : Shunt} {sensor : Sensor} {past : List Sensor} {ns : List Int} {vs : List Value}
  {voltage current : Value} {v : Number} {n mean : Int} {x : Binary64} {reason : String}

/-! ### The window -/

/-- Measures with one sensor after the other. -/
def readAll (s : Shunt) (sensors : List Sensor) : Shunt :=
  sensors.foldl (fun s sensor => (s.read sensor).2) s

/-- The currents that sensors deliver. -/
def samples (sensors : List Sensor) : List Int := sensors.filterMap Sensor.sample?

/-- The values are the integers, or truth values that count as them. -/
def Count (vs : List Value) (ns : List Int) : Prop :=
  List.Forall₂ (fun current n => current.Alike (.int n)) vs ns

theorem read_of_failure (h : sensor.failure? = some reason) :
    s.read sensor = (.error (.telemetry (.reading reason)), s) := by
  unfold Sensor.failure? at h
  unfold read
  split at h <;> simp_all

theorem read_of_measured (hvoltage : sensor.voltage = .ok voltage)
    (hcurrent : sensor.current = .ok current) :
    let s' : Shunt := { s with recent := push s.recent current }
    s.read sensor = ((s'.reading voltage current).map fun r => [r], s') := by
  rw [read, hvoltage, hcurrent]
  dsimp only
  cases ({ s with recent := push s.recent current } : Shunt).reading voltage current <;> rfl

theorem Count.push (h : Count vs (ns.rtake 12)) (hcurrent : current.Alike (.int n)) :
    Count (push vs current) ((ns ++ [n]).rtake 12) := by
  have hall : Count (vs ++ [current]) (ns.rtake 12 ++ [n]) :=
    List.rel_append h (.cons hcurrent .nil)
  have hrest : (ns.rtake 12 ++ [n]).rtake 12 = (ns ++ [n]).rtake 12 := by
    rw [List.rtake_concat_succ, List.rtake_concat_succ, List.rtake_eq_reverse_take_reverse,
      List.rtake_eq_reverse_take_reverse, List.rtake_eq_reverse_take_reverse, List.reverse_reverse,
      List.take_take]
    rfl
  rw [← hrest, List.rtake, ← hall.length_eq]
  exact List.forall₂_drop _ hall

/-- What one read preserves: the window holds the last of the delivered currents. -/
theorem count_read (h : Count s.recent (ns.rtake 12)) (hsensor : sensor.IsProper) :
    Count (s.read sensor).2.recent ((ns ++ sensor.sample?.toList).rtake 12) := by
  rcases hsensor with ⟨reason, hfails⟩ | ⟨v, n, hdelivers, -⟩
  · rw [read_of_failure hfails, Sensor.sample?_of_failure hfails, Option.toList_none,
      List.append_nil]
    exact h
  · rw [hdelivers.sample?_eq, Option.toList_some]
    obtain ⟨voltage, current, hvoltage, -, hcurrent, halike⟩ := hdelivers
    rw [read_of_measured hvoltage hcurrent]
    exact h.push halike

theorem count_readAll (h : Count s.recent (ns.rtake 12)) (hpast : ∀ sensor ∈ past, sensor.IsProper) :
    Count (s.readAll past).recent ((ns ++ samples past).rtake 12) := by
  induction past generalizing s ns with
  | nil => simpa [samples, readAll] using h
  | cons sensor rest ih =>
    have hstep := count_read h (hpast sensor List.mem_cons_self)
    have hrest := ih hstep fun sensor' hmem => hpast sensor' (List.mem_cons_of_mem _ hmem)
    have hsamples : samples (sensor :: rest) = sensor.sample?.toList ++ samples rest := by
      rw [samples, List.filterMap_cons]
      cases sensor.sample? <;> rfl
    rwa [List.append_assoc, ← hsamples] at hrest

theorem readAll_keeps (s : Shunt) (past : List Sensor) :
    (s.readAll past).capacity = s.capacity ∧ (s.readAll past).name = s.name := by
  induction past generalizing s with
  | nil => exact ⟨rfl, rfl⟩
  | cons sensor rest ih =>
    have hstep : (s.read sensor).2.capacity = s.capacity ∧ (s.read sensor).2.name = s.name := by
      unfold read
      split
      · exact ⟨rfl, rfl⟩
      · split <;> exact ⟨rfl, rfl⟩
    obtain ⟨hcapacity, hname⟩ := ih (s.read sensor).2
    exact ⟨hcapacity.trans hstep.1, hname.trans hstep.2⟩

/-! ### The mean of integers -/

theorem sum_eq (h : Count vs ns) : sum vs = .ok (.int ns.sum) := by
  have hfrom (total : Int) : vs.foldlM (fun total v => do total.add (← v.number)) (.int total) =
      (.ok (.int (total + ns.sum)) : Except Fault Number) := by
    induction h generalizing total with
    | nil =>
      rw [List.sum_nil, add_zero]
      rfl
    | cons hv _ ih =>
      rw [List.foldlM_cons, hv.number, List.sum_cons, ← add_assoc]
      exact ih _
  rw [sum, hfrom 0, zero_add]

theorem natAbs_sum_lt (hsmall : ∀ n ∈ ns, n.natAbs < 2 ^ 31) (hlength : ns.length ≤ 12) :
    ns.sum.natAbs < 2 ^ 51 := by
  have hupper : ns.sum ≤ ns.length • 2 ^ 31 := List.sum_le_card_nsmul ns _ fun n hn => by
    have := hsmall n hn
    omega
  have hlower : ns.length • (-2 ^ 31) ≤ ns.sum := List.card_nsmul_le_sum ns _ fun n hn => by
    have := hsmall n hn
    omega
  rw [nsmul_eq_mul] at hupper hlower
  omega

/-- **The mean of small integers is rounded as the exact one.** -/
theorem average_spec (h : Count vs ns) (hne : ns ≠ []) (hsmall : ns.sum.natAbs < 2 ^ 51) :
    ∃ x mean, average vs = .ok x ∧ x.round = .ok mean ∧
      Rounding.IsNearest (ns.sum / ns.length) mean := by
  have hlength : 0 < (ns.length : Int) := by exact_mod_cast List.length_pos_iff.2 hne
  have hone : (1 : ℚ) ≤ (ns.length : Int) := by exact_mod_cast hlength
  have hlt := abs_div_lt_beyond hone (isDouble_intCast (m := ns.sum) (by omega)).lt_beyond
  obtain ⟨x, hx, hvalue⟩ := Number.int_div hlength hlt
  refine ⟨x, _, ?_, by rw [Binary64.round, toInteger, hvalue], ?_⟩
  · rw [average, sum_eq h, h.length_eq]
    exact hx
  · rw [toNearest_nearestDouble_div hlength hsmall]
    exact_mod_cast Rounding.isNearest_toNearest _

/-! ### Readings -/

/-- The capacity at a voltage. -/
def chargeAt (s : Shunt) (v : Number) : Except Fault Int := do
  let percent ← Curve.percent v
  let product ← (← s.capacity.number).mul (.double percent)
  (← product.div (.double 100)).round

theorem exists_chargeAt {c : Number} {q : ℚ} (hcapacity : s.capacity.number = .ok c)
    (hvalue : c.value = .real q) (hq : |q| ≤ 2 ^ 1000) (v : Number) :
    ∃ charge, s.chargeAt v = .ok charge := by
  obtain ⟨x, hx, hx'⟩ := Number.exists_within (by decide) hvalue hq
  obtain ⟨y, hy, hpercent⟩ := Curve.percent_value v
  have hrange := Curve.charge_range v.value
  have hy' : y.Within 7 := ⟨_, hpercent, by rw [abs_of_nonneg hrange.1]; linarith only [hrange.2]⟩
  have hhundred : (100 : Binary64).value = .real 100 := value_ofInt (m := 100) (by decide)
  have hdiv : (Number.double (x.mul y)).div (.double 100) = .ok ((x.mul y).div 100) :=
    Number.double_div rfl hhundred (by norm_num only)
  have hquotient := (hx'.mul hy' (by decide)).div hhundred (by norm_num only) (by decide)
  obtain ⟨charge, hcharge⟩ := hquotient.exists_toInteger Rounding.toNearest
  refine ⟨charge, ?_⟩
  rw [chargeAt, hy, hcapacity]
  change (c.mul (.double y) >>= fun product => product.div (.double 100) >>= Binary64.round) = _
  rw [Number.mul, Number.combine_double hx]
  exact bind_eq_ok.2 ⟨_, rfl, bind_eq_ok.2 ⟨_, hdiv, hcharge⟩⟩

theorem reading_eq (haverage : average s.recent = .ok x) (hmean : x.round = .ok mean)
    (hvoltage : voltage.number = .ok v) (hcurrent : current.Alike (.int n)) :
    s.reading voltage current = (s.chargeAt v).map fun charge => {
      isPresent := .bool true
      externalConnected := .bool (10 < n)
      isCharging := .bool (10 < n)
      currentCapacity := .int charge
      maxCapacity := s.capacity
      avgAmperage := .int mean
      instantAmperage := .int n
      hasInstantAmperage := .bool true
      name := s.name
      invalidWakeSecs := .int settledTime } := by
  have hless : (Value.int chargeThreshold).less current = .ok (decide (10 < n)) := by
    rw [Value.less, hcurrent.number]
    change Except.ok (decide ((chargeThreshold : ℚ) < n)) = _
    rw [Except.ok.injEq, decide_eq_decide]
    exact_mod_cast Iff.rfl
  have hround : current.round = .ok n := by
    rw [Value.round, hcurrent.number]
    rfl
  have hgiven {α β : Type} (a : α) (f : α → Except Fault β) : (Except.ok a >>= f) = f a := rfl
  change _ = (fun charge => _) <$> s.chargeAt v
  simp only [reading, haverage, hless, hvoltage, chargeAt, hmean, hround, hgiven,
    map_eq_pure_bind, bind_assoc]

theorem natAbs_lt_of_mem_samples (hpast : ∀ sensor ∈ past, sensor.IsProper) :
    ∀ n ∈ samples past, n.natAbs < 2 ^ 31 := by
  intro n hn
  obtain ⟨sensor, hmem, hsample⟩ := List.mem_filterMap.1 hn
  rcases hpast sensor hmem with ⟨reason, hfails⟩ | ⟨v, m, hdelivers, hm⟩
  · rw [Sensor.sample?_of_failure hfails] at hsample
    cases hsample
  · rw [hdelivers.sample?_eq] at hsample
    cases hsample
    exact hm

/-- **The average is the mean of the last twelve samples**, whatever was read from a new source before.
A read that fails tells why and changes nothing.  Any other one gives the integer nearest to the mean
of the currents that were delivered last, at most twelve of them, and the latest current as it is; the
battery charges, on external power, from more than 10 mA on.  It does give a reading unless the capacity
of the full pack is no number, or one that is far too large. -/
theorem averages_last_samples (hnew : s.recent = []) (hpast : ∀ sensor ∈ past, sensor.IsProper)
    (hsensor : sensor.IsProper) :
    let source := s.readAll past
    let delivered := samples (past ++ [sensor])
    (∀ reason, sensor.failure? = some reason →
      source.read sensor = (.error (.telemetry (.reading reason)), source)) ∧
    (∀ v n, sensor.Delivers v n → ∃ mean,
      Rounding.IsNearest ((delivered.rtake 12).sum / (min 12 delivered.length : Nat)) mean ∧
      (source.read sensor).1 = (s.chargeAt v).map fun charge => [{
        isPresent := .bool true
        externalConnected := .bool (10 < n)
        isCharging := .bool (10 < n)
        currentCapacity := .int charge
        maxCapacity := s.capacity
        avgAmperage := .int mean
        instantAmperage := .int n
        hasInstantAmperage := .bool true
        name := s.name
        invalidWakeSecs := .int settledTime }]) ∧
    (∀ v c q, s.capacity.number = .ok c → c.value = .real q → |q| ≤ 2 ^ 1000 →
      ∃ charge, s.chargeAt v = .ok charge) := by
  intro source delivered
  refine ⟨fun reason hfails => read_of_failure hfails, fun v n hdelivers => ?_,
    fun v c q hcapacity hvalue hq => exists_chargeAt hcapacity hvalue hq v⟩
  have hdelivered : delivered = samples past ++ [n] := by
    change samples (past ++ [sensor]) = _
    rw [samples, List.filterMap_append, List.filterMap_cons_some hdelivers.sample?_eq]
    rfl
  obtain ⟨voltage, current, hvoltage, hnumber, hcurrent, halike⟩ := hdelivers
  have hempty : Count s.recent (([] : List Int).rtake 12) := by
    rw [hnew, List.rtake_nil]
    exact .nil
  have hwindow := (count_readAll hempty hpast).push halike
  rw [List.nil_append, ← hdelivered] at hwindow
  have hlength : (delivered.rtake 12).length = min 12 delivered.length := by
    rw [List.rtake, List.length_drop]
    omega
  have hne : delivered.rtake 12 ≠ [] := by
    rw [← List.length_pos_iff, hlength, hdelivered, List.length_append, List.length_singleton]
    omega
  have hproper : ∀ sensor' ∈ past ++ [sensor], sensor'.IsProper := by
    simpa [or_imp, forall_and] using ⟨hpast, hsensor⟩
  have hsum : (delivered.rtake 12).sum.natAbs < 2 ^ 51 := by
    refine natAbs_sum_lt (fun m hm => ?_) (by omega)
    exact natAbs_lt_of_mem_samples hproper m (List.mem_of_mem_drop hm)
  obtain ⟨x, mean, hx, hmean, hnearest⟩ := average_spec hwindow hne hsum
  rw [hlength] at hnearest
  refine ⟨mean, hnearest, ?_⟩
  obtain ⟨hcapacity, hname⟩ := readAll_keeps s past
  have hcharge : (s.readAll past).chargeAt v = s.chargeAt v := by
    rw [chargeAt, chargeAt, hcapacity]
  rw [read_of_measured hvoltage hcurrent, reading_eq hx hmean hnumber halike]
  change Except.map _ (Except.map _ ((s.readAll past).chargeAt v)) = _
  rw [hcharge, ← hcapacity, ← hname]
  cases s.chargeAt v <;> rfl

/-- The first of thirteen samples has left the window, and the mean of the others is a tie. -/
theorem averages_last_samples_slid :
    let sample (n : Int) : Sensor := { voltage := .ok (.float 12), current := .ok (.int n) }
    let past := [{ voltage := .error "Remote I/O error" }, sample 1000] ++
      List.replicate 6 (sample 10) ++
      [{ voltage := .ok (.float 12), current := .error "Remote I/O error" }] ++
      List.replicate 5 (sample 10)
    ∃ r, ((({} : Shunt).readAll past).read (sample 16)).1 = .ok [r] ∧ r.avgAmperage = .int 10 ∧
      r.instantAmperage = .int 16 ∧ r.isCharging = .bool true := by
  intro sample past
  have hsample (n : Int) (hn : n.natAbs < 2 ^ 31) : (sample n).IsProper ∧
      (sample n).Delivers (.double 12) n :=
    have hdelivers : (sample n).Delivers (.double 12) n :=
      ⟨.float 12, .int n, rfl, rfl, rfl, .refl _⟩
    ⟨.inr ⟨_, n, hdelivers, hn⟩, hdelivers⟩
  have hpast : ∀ sensor ∈ past, sensor.IsProper := by
    intro sensor hsensor
    simp only [past, List.mem_append, List.mem_cons, List.mem_replicate, List.not_mem_nil,
      or_false] at hsensor
    rcases hsensor with (((rfl | rfl) | ⟨-, rfl⟩) | rfl) | ⟨-, rfl⟩
    · exact .inl ⟨"Remote I/O error", rfl⟩
    · exact (hsample 1000 (by decide)).1
    · exact (hsample 10 (by decide)).1
    · exact .inl ⟨"Remote I/O error", rfl⟩
    · exact (hsample 10 (by decide)).1
  have hlast := hsample 16 (by decide)
  obtain ⟨-, hreads, hcharges⟩ :=
    averages_last_samples (s := {}) rfl hpast hlast.1
  obtain ⟨mean, hnearest, hread⟩ := hreads _ _ hlast.2
  have hcapacity : |(3400 : ℚ)| ≤ 2 ^ 1000 := by
    refine le_trans ?_ (pow_le_pow_right₀ one_le_two (by decide : 12 ≤ 1000))
    norm_num
  obtain ⟨charge, hcharge⟩ := hcharges (.double 12) (.int 3400) 3400 rfl rfl hcapacity
  have htie : Rounding.IsNearest ((126 : Int) / (min 12 13 : Nat)) 10 :=
    .inr ⟨by norm_num, by decide⟩
  have hwindow : ((samples (past ++ [sample 16])).rtake 12).sum = 126 ∧
      (samples (past ++ [sample 16])).length = 13 := by decide +kernel
  rw [hwindow.1, hwindow.2] at hnearest
  obtain rfl : mean = 10 := hnearest.unique htie
  rw [hcharge] at hread
  exact ⟨_, hread, rfl, rfl, rfl⟩

end Shunt

end BatteryMonitor
