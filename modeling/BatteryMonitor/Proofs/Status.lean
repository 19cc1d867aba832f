import BatteryMonitor.Proofs.Mirror
import BatteryMonitor.Proofs.Range
import BatteryMonitor.Status

/-!
# What is shown of a battery

The estimate for a reading becomes a member of a record, the record goes through a file, and what is
read back is shown to people.  The two ends only share the names of the members and what the signs of
the minutes mean.  All the same, what is shown is what was estimated:

* `Status.Says` : a text that says how long minutes are says it of no other number of minutes.
* `Status.formatTime_report`, `Status.formatRecord_report` : the words and the lines for the record of
  a reading, by what the reading and the estimate are (`Status.timeOf`, `Status.linesOf`).
* `Status.formatRecord_congr` : they only look at the members, and `Store.Legible.loadState_put` gives
  back the members of a record that was written, in another order.
* `Status.shown_as_estimated` : so the lines are the same behind the file.
-/

namespace BatteryMonitor

namespace Decimal

theorem digits_append_inj {m n : Nat} {cs ds : List Char}
    (hcs : ∀ c ∈ cs.head?, digitValue? c = none) (hds : ∀ c ∈ ds.head?, digitValue? c = none)
    (h : digits m ++ cs = digits n ++ ds) : m = n ∧ cs = ds := by
  rw [digits_eq, digits_eq] at h
  have hsplit := Numeral.splitDigits_map (places_lt m) hcs
  rw [h, Numeral.splitDigits_map (places_lt n) hds, Prod.mk.injEq] at hsplit
  exact ⟨by rw [← ofDigits_places m, ← hsplit.1, ofDigits_places], hsplit.2.symm⟩

end Decimal

namespace Status

open Effect

variable {text : String} {minutes minutes' : Int}

/-! ### Durations -/

/-- The digits of a number. -/
def numeral (n : Nat) : String := String.ofList (Decimal.digits n)

/-- The text says how long the minutes are: in hours, unless there are none, and minutes. -/
def Says (text : String) (minutes : Int) : Prop :=
  ∃ hours rest : Nat, rest < 60 ∧ 60 * hours + rest = minutes ∧
    text = if 0 < hours then numeral hours ++ "h " ++ numeral rest ++ "m" else numeral rest ++ "m"

/-- **A text says one duration only.** -/
theorem Says.unique (h : Says text minutes) (h' : Says text minutes') : minutes = minutes' := by
  obtain ⟨hours, rest, -, rfl, rfl⟩ := h
  obtain ⟨hours', rest', -, rfl, heq⟩ := h'
  have hletter {c : Char} {cs : List Char} (hc : Decimal.digitValue? c = none) :
      ∀ d ∈ (c :: cs).head?, Decimal.digitValue? d = none := by
    rintro _ ⟨⟩
    exact hc
  have hh {cs : List Char} : ∀ d ∈ ('h' :: cs).head?, Decimal.digitValue? d = none :=
    hletter (by decide)
  have hm {cs : List Char} : ∀ d ∈ ('m' :: cs).head?, Decimal.digitValue? d = none :=
    hletter (by decide)
  -- the texts are the same digits up to the first letter, and the same from there on
  have hchars := congrArg String.toList heq
  split_ifs at hchars with hpos hpos' hpos' <;>
    simp only [numeral, String.toList_append, String.toList_ofList, List.append_assoc] at hchars
  · obtain ⟨rfl, hrest⟩ := Decimal.digits_append_inj hh hh hchars
    obtain ⟨rfl, -⟩ := Decimal.digits_append_inj hm hm (List.cons.inj (List.cons.inj hrest).2).2
    rfl
  · obtain ⟨-, hrest⟩ := Decimal.digits_append_inj hh hm hchars
    exact absurd (List.cons.inj hrest).1 (by decide)
  · obtain ⟨-, hrest⟩ := Decimal.digits_append_inj hm hh hchars
    exact absurd (List.cons.inj hrest).1 (by decide)
  · obtain ⟨rfl, -⟩ := Decimal.digits_append_inj hm hm hchars
    omega

theorem displayInteger_natCast {n : Nat} (h : n ≤ 600) : displayInteger n = .ok (numeral n) := by
  have hlimit : Decimal.withinLimit (n : Int) = true :=
    Decimal.withinLimit_of_le (k := 10) (by decide) (h.trans (by decide))
  rw [displayInteger, if_pos hlimit]
  rfl

theorem exists_formatMinutes (h : 0 ≤ minutes) (hmax : minutes ≤ 600) :
    ∃ text, formatMinutes (.int minutes) = .ok text ∧ Says text minutes := by
  obtain ⟨total, rfl⟩ := Int.eq_ofNat_of_zero_le h
  have hhours : (total : Int).fdiv 60 = (total / 60 : Nat) := by
    rw [Int.fdiv_eq_ediv_of_nonneg _ (by decide)]
    rfl
  have hrest : (total : Int).fmod 60 = (total % 60 : Nat) := by
    rw [Int.fmod_eq_emod_of_nonneg _ (by decide)]
    rfl
  refine ⟨_, ?_, total / 60, total % 60, Nat.mod_lt _ (by decide), by omega, rfl⟩
  have htotal : total ≤ 600 := by omega
  simp only [formatMinutes, Value.toInteger, bind, Except.bind, hhours, hrest,
    displayInteger_natCast (n := total % 60) (by omega),
    displayInteger_natCast (n := total / 60) (by omega)]
  split_ifs with hpos hpos' hpos' <;> first | rfl | omega

/-! ### What is looked at in a record -/

section Congruence

variable {record record' : Table Value}

theorem formatTime_congr (h : ∀ key default, record.getD key default = record'.getD key default) :
    formatTime record = formatTime record' := by
  unfold formatTime formatCharging formatDischarging
  rw [h "Is Present", h "Is Charging", h "Time to Full Charge", h "Time to Empty",
    h "Power Source State"]

theorem formatRecord_congr (h : ∀ key default, record.getD key default = record'.getD key default) :
    formatRecord record = formatRecord record' := by
  unfold formatRecord healthLines failureLines
  rw [formatTime_congr h, h "Is Present", h "Is Charging", h "Current Capacity", h "BatteryHealth",
    h "Failure"]

end Congruence

/-! ### The lines of a report -/

/-- The words for the time remaining, given those for its duration. -/
def timeOf (r : Reading) (minutes : Int) (duration : String) : String :=
  if !r.isPresent.truth then ""
  else if minutes = -1 then "Calculating..."
  else if r.isCharging.truth then if 0 < minutes then duration ++ " to full" else "Charging..."
  else if r.externalConnected.truth then "Charged"
  else if 0 < minutes then duration ++ " remaining" else ""

/-- The line for a health that is known and not good. -/
def healthLine : Option Rating → List Text
  | some .poor => [indented "Health: Poor"]
  | some .fair => [indented "Health: Fair"]
  | some .good | none => []

/-- The line for a failure, unless its text is empty. -/
def failureLine : Value → List Text
  | .text failure => if failure = "" then [] else [indented failure]
  | _ => []

/-- The lines for a battery, given the words for its charge and its time remaining. -/
def linesOf (r : Reading) (percent time : String) (health : Option Rating) : List Text :=
  if !r.isPresent.truth then ["> --"]
  else .whole ("> " ++ percent ++ "%" ++ if r.isCharging.truth then " CHG" else "") ::
    (timeLines time ++ healthLine health ++ failureLine r.failure)

theorem less_int (m n : Int) : (Value.int m).less (.int n) = .ok (decide (m < n)) :=
  congrArg Except.ok (decide_eq_decide.2 Rat.intCast_lt_intCast)

theorem formatCharging_eq {record : Table Value} {duration : String}
    (h : record.getD "Time to Full Charge" (.int (-1)) = .int minutes)
    (hduration : 0 < minutes → formatMinutes (.int minutes) = .ok duration) :
    formatCharging record = .ok (if 0 < minutes then duration ++ " to full"
      else if minutes < 0 then "Calculating..." else "Charging...") := by
  simp only [formatCharging, h, less_int, bind, Except.bind, decide_eq_true_eq]
  split_ifs with hpos
  · rw [hduration hpos]
    rfl
  · rfl
  · rfl

theorem formatDischarging_eq {record : Table Value} {duration : String} {external : Bool}
    (h : record.getD "Time to Empty" (.int (-1)) = .int minutes)
    (hsource : (record.getD "Power Source State" .null).isText acPower = external)
    (hduration : 0 < minutes → formatMinutes (.int minutes) = .ok duration) :
    formatDischarging record = .ok (if 0 < minutes then duration ++ " remaining"
      else if minutes < 0 then "Calculating..." else if external then "Charged" else "") := by
  simp only [formatDischarging, h, less_int, hsource, bind, Except.bind, decide_eq_true_eq]
  split_ifs with hpos
  · rw [hduration hpos]
    rfl
  · rfl
  · rfl
  · rfl

section Report

variable {r : Reading} {state : BatteryState} {c : Conditions} {now : Binary64}
  {snapshot : Snapshot} {latched : Bool} {duration : String}

/-- **The time that the record of a reading is shown with.** -/
theorem formatTime_report (h : r.report state c now = .ok (snapshot, latched))
    (htime : state.timeRemaining = .int minutes)
    (hrange : minutes = -1 ∨ 0 ≤ minutes ∧ minutes ≤ 600)
    (hduration : 0 < minutes → formatMinutes (.int minutes) = .ok duration) :
    formatTime snapshot.toRecord = .ok (timeOf r minutes duration) := by
  obtain ⟨capacity, health, -, -, rfl⟩ := Reading.report_eq_ok h
  rw [htime, Reading.timeFields_eq r minutes capacity]
  generalize hrecord : Snapshot.toRecord _ = record
  have hpresent : record.getD "Is Present" (.bool false) = .bool r.isPresent.truth := by
    rw [← hrecord]
    rfl
  have hcharging : record.getD "Is Charging" .null =
      .bool (r.isPresent.truth && r.isCharging.truth) := by
    rw [← hrecord]
    rfl
  have hfull : record.getD "Time to Full Charge" (.int (-1)) =
      .int (r.vitals minutes capacity).timeToFull := by
    rw [← hrecord]
    rfl
  have hempty : record.getD "Time to Empty" (.int (-1)) =
      .int (r.vitals minutes capacity).timeToEmpty := by
    rw [← hrecord]
    rfl
  have hsource : (record.getD "Power Source State" .null).isText acPower =
      r.externalConnected.truth := by
    rw [← hrecord]
    change Value.isText (.text _) acPower = _
    cases r.externalConnected.truth <;> decide
  clear hrecord h
  unfold formatTime timeOf
  rw [hpresent, hcharging]
  cases hthere : r.isPresent.truth with
  | false => rfl
  | true =>
    cases hmode : r.isCharging.truth with
    | true =>
      rw [Reading.timeToFull_vitals capacity hthere hmode] at hfull
      rw [formatCharging_eq hfull hduration]
      refine congrArg Except.ok ?_
      simp only [Bool.not_true, Bool.false_eq_true, if_false, if_true]
      split_ifs <;> first | rfl | omega
    | false =>
      have hminutes : (r.vitals minutes capacity).timeToEmpty =
          if r.externalConnected.truth = true ∧ minutes ≠ -1 then 0 else minutes :=
        Reading.timeToEmpty_vitals capacity hthere hmode
      have hduration : 0 < (r.vitals minutes capacity).timeToEmpty →
          formatMinutes (.int (r.vitals minutes capacity).timeToEmpty) = .ok duration := by
        rw [hminutes]
        split_ifs
        · intro hpos
          omega
        · exact hduration
      rw [formatDischarging_eq hempty hsource hduration, hminutes]
      refine congrArg Except.ok ?_
      cases r.externalConnected.truth <;>
        simp only [Bool.not_true, Bool.false_eq_true, if_false, if_true, true_and, false_and] <;>
        split_ifs <;> first | rfl | omega

theorem healthLines_toRecord (snapshot : Snapshot) :
    healthLines snapshot.toRecord = .ok (healthLine snapshot.health) := by
  unfold healthLines Table.getD
  rw [Snapshot.find?_health]
  cases snapshot.health with
  | none => rfl
  | some rating => cases rating <;> rfl

theorem failureLines_toRecord (hfailure : snapshot.failure.isOptional .text = true) :
    failureLines snapshot.toRecord = .ok (failureLine snapshot.failure) := by
  unfold failureLines Table.getD
  rw [Snapshot.find?_failure]
  cases hkind : snapshot.failure with
  | null => rfl
  | text failure =>
    by_cases hempty : failure = ""
    · rw [hempty]
      rfl
    · have htruth : (Value.text failure).truth = true := bne_iff_ne.2 hempty
      simp only [Value.isNull, Bool.false_eq_true, if_false, Option.getD_some, htruth, if_true,
        failureLine, if_neg hempty]
      rfl
  | bool | int | float | list | object =>
    rw [hkind] at hfailure
    exact absurd hfailure Bool.false_ne_true

/-- **The lines that the record of a reading is shown with.** -/
theorem formatRecord_report (h : r.report state c now = .ok (snapshot, latched))
    (hr : r.isWellTyped = true) (htime : state.timeRemaining = .int minutes)
    (hrange : minutes = -1 ∨ 0 ≤ minutes ∧ minutes ≤ 600)
    (hduration : 0 < minutes → formatMinutes (.int minutes) = .ok duration) :
    ∃ percent, snapshot.currentCapacity = .int percent ∧ formatRecord snapshot.toRecord =
      .ok (linesOf r (String.ofList (Decimal.signedDigits percent)) (timeOf r minutes duration)
        snapshot.health) := by
  have hplain := Reading.plain_report hr htime h
  have htimeline := formatTime_report h htime hrange hduration
  have hfailure := failureLines_toRecord hplain.failure
  obtain ⟨capacity, health, hcapacity, -, hsnapshot⟩ := Reading.report_eq_ok h
  have hlimit := (Reading.withinLimit_capacityPercentages hcapacity).1
  have hcurrent : snapshot.currentCapacity = .int capacity.1 := by rw [hsnapshot]
  have hsource : snapshot.failure = r.failure := by rw [hsnapshot]
  have hcharge : (snapshot.toRecord.getD "Current Capacity" (.int 0)).display =
      .ok (String.ofList (Decimal.signedDigits capacity.1)) := by
    change snapshot.currentCapacity.display = _
    simp only [hcurrent, Value.display, Value.inspect, displayInteger, if_pos hlimit]
    rfl
  have hpresent : (snapshot.toRecord.getD "Is Present" (.bool false)).truth = r.isPresent.truth := by
    rw [hsnapshot]
    rfl
  have hmode : (snapshot.toRecord.getD "Is Charging" .null).truth =
      (r.isPresent.truth && r.isCharging.truth) := by
    rw [hsnapshot, htime, Reading.timeFields_eq r minutes capacity]
    rfl
  refine ⟨capacity.1, hcurrent, ?_⟩
  unfold formatRecord linesOf
  rw [hpresent, hmode, hcharge, htimeline, healthLines_toRecord, hfailure, hsource]
  cases r.isPresent.truth with
  | false => rfl
  | true =>
    cases r.isCharging.truth <;>
      simp [bind, Except.bind, pure, Except.pure, Text.prepend, Text.append, String.append_assoc]

theorem timeOf_eq_calculating_iff (hpresent : r.isPresent.truth = true) :
    timeOf r minutes duration = "Calculating..." ↔ minutes = -1 := by
  have hlast (ending : String) (hne : ending.toList ≠ [])
      (h : ending.toList.getLast? ≠ some '.') : duration ++ ending ≠ "Calculating..." := by
    intro heq
    have hchars := congrArg (fun text => text.toList.getLast?) heq
    rw [String.toList_append, List.getLast?_append_of_ne_nil _ hne] at hchars
    exact h (hchars.trans (by decide))
  unfold timeOf
  rw [hpresent]
  simp only [Bool.not_true, Bool.false_eq_true, if_false]
  split_ifs with hnone hmode hpos hexternal hpos
  · exact iff_of_true rfl hnone
  · exact iff_of_false (hlast " to full" (by decide) (by decide)) hnone
  · exact iff_of_false (by decide) hnone
  · exact iff_of_false (by decide) hnone
  · exact iff_of_false (hlast " remaining" (by decide) (by decide)) hnone
  · exact iff_of_false (by decide) hnone

end Report

/-! ### Through the file -/

/-- **What is shown is what was estimated.**  The record of a sound reading, put in any store that a
file carries, is read back from the file as one that is shown with the charge, the time, the health
and the failure of the reading.  Only minutes that are indeterminate are shown as such, and any other
number of them can be told from the words for it. -/
theorem shown_as_estimated {r : Reading} {state : BatteryState} {s : Store} {p : Path}
    (hr : r.isSound = true) (hrange : minutes = -1 ∨ 0 ≤ minutes ∧ minutes ≤ 600)
    (htime : state.timeRemaining = .int minutes) (c : Conditions) (now : Binary64)
    (hs : s.Legible p) (hquiet : s.Quiet) (name : Text) :
    ∃ snapshot latched percent duration, r.report state c now = .ok (snapshot, latched) ∧
      snapshot.currentCapacity = .int percent ∧
      (0 ≤ minutes → Says duration minutes ∧ ∀ other, Says duration other → other = minutes) ∧
      (r.isPresent.truth = true →
        (timeOf r minutes duration = "Calculating..." ↔ minutes = -1)) ∧
      (s.Dependable p → ∃ s', Completes (Store.Call.put name snapshot.toRecord).observe s true s') ∧
      ∀ s', Completes (Store.Call.put name snapshot.toRecord).observe s true s' →
        ∃ values record, s'.disk.loadState p = .ok values ∧
          values.find? (.text name) = some (.object record) ∧
          formatTime record = .ok (timeOf r minutes duration) ∧
          formatRecord record = .ok (linesOf r (String.ofList (Decimal.signedDigits percent))
            (timeOf r minutes duration) snapshot.health) := by
  have hwell := Reading.isWellTyped_of_isSound hr
  obtain ⟨⟨snapshot, latched⟩, hreport⟩ := Reading.exists_report hr state c now
  obtain ⟨duration, htold, hformat⟩ : ∃ duration, (0 ≤ minutes → Says duration minutes) ∧
      (0 < minutes → formatMinutes (.int minutes) = .ok duration) := by
    rcases hrange with rfl | ⟨hlower, hupper⟩
    · exact ⟨"", nofun, nofun⟩
    · obtain ⟨duration, hformat, htold⟩ := exists_formatMinutes hlower hupper
      exact ⟨duration, fun _ => htold, fun _ => hformat⟩
  have htimeline := formatTime_report hreport htime hrange hformat
  obtain ⟨percent, hpercent, hlines⟩ := formatRecord_report hreport hwell htime hrange hformat
  have hflat := Reading.flat_report hwell hrange htime hreport
  refine ⟨snapshot, latched, percent, duration, hreport, hpercent,
    fun h => ⟨htold h, fun other hother => hother.unique (htold h)⟩, timeOf_eq_calculating_iff,
    fun hs => hs.exists_put hflat name, fun s' h => ?_⟩
  obtain ⟨values, hload, hfind⟩ := hs.loadState_put hquiet
    (Value.isLegible_mono _ (by decide : 1 ≤ Json.nestingLimit - 1) hflat) h
  -- what is read back has the members of the record, in another order
  have hmembers (key : String) (default : Value) :
      (Value.inOrder (Value.sortedMembers snapshot.toRecord)).getD key default =
        snapshot.toRecord.getD key default := by
    rw [Table.getD, Table.getD, hflat.find?_inOrder]
  exact ⟨values, _, hload, hfind, (formatTime_congr hmembers).trans htimeline,
    (formatRecord_congr hmembers).trans hlines⟩

/-- A battery that charges. -/
def charging : Reading where
  isCharging := .bool true
  currentCapacity := .int 3000
  maxCapacity := .int 5000
  failure := .text "Permanent Battery Failure"

/-- A store on a disk without files. -/
def onEmptyDisk : Store where
  backing := some Store.shelf

/-- It is full in 85 minutes, and that is shown of it. -/
theorem shown_as_estimated_charging :
    ∃ (s' : Store) (values record : Table Value), s'.disk.loadState Store.shelf = .ok values ∧
      values.find? (.text "A") = some (.object record) ∧
      formatRecord record = .ok ["> 60% CHG", indented "1h 25m to full",
        indented "Permanent Battery Failure"] := by
  have htakes : onEmptyDisk.disk.Takes Store.shelf := exists_ok_of_toOption (by decide +kernel)
  have hlegible : onEmptyDisk.Legible Store.shelf := ⟨rfl, List.nodup_nil, List.forall_mem_nil _⟩
  have hsound : charging.isSound = true := by decide
  have htime : ({ timeRemaining := .int 85 } : BatteryState).timeRemaining = .int 85 := rfl
  obtain ⟨snapshot, latched, percent, duration, hreport, hpercent, htold, -, hput, hshown⟩ :=
    shown_as_estimated hsound (by decide) htime {} 0 hlegible (List.forall_mem_nil _) "A"
  obtain ⟨s', hs'⟩ := hput ⟨⟨hlegible, htakes⟩, List.forall_mem_nil _⟩
  obtain ⟨values, record, hload, hfind, -, hlines⟩ := hshown s' hs'
  obtain rfl : duration = "1h 25m" := by
    obtain ⟨hours, rest, hrest, htotal, rfl⟩ := (htold (by decide)).1
    obtain ⟨rfl, rfl⟩ : hours = 1 ∧ rest = 25 := by omega
    decide +kernel
  obtain ⟨capacity, health, hcapacity, hhealth, hsnapshot⟩ := Reading.report_eq_ok hreport
  obtain rfl : capacity = (60, 100) :=
    Except.ok.inj (hcapacity.symm.trans (by decide +kernel))
  obtain ⟨rfl, -⟩ : Health.unknown = health ∧ false = latched :=
    Prod.mk.inj (Except.ok.inj ((show charging.classify false = .ok _ from rfl).symm.trans hhealth))
  obtain rfl : 60 = percent := by
    rw [hsnapshot] at hpercent
    exact Value.int.inj hpercent
  rw [hsnapshot] at hlines
  exact ⟨s', values, record, hload, hfind, hlines.trans (congrArg Except.ok (by decide +kernel))⟩

end Status

end BatteryMonitor
