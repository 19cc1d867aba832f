import BatteryMonitor.CommandLine.Display
import BatteryMonitor.Proofs.Mirror
import BatteryMonitor.Proofs.Range
import BatteryMonitor.Proofs.Settings
import BatteryMonitor.Proofs.Truncation

/-!
# The display of any state file

A state file can hold anything, and so can its records.

* `Value.exists_display` : whatever can be read from a file can be shown.
* `Status.exists_timed_iff` : only the minutes may have no words.  They have some iff they are a number,
  and not infinitely many (`Status.IsTold`).
* `Status.formatRecord_spec` : so a record is shown iff it is an object whose minutes are told and whose
  texts are strings (`Status.IsWhole`), if the battery is there at all; its first line starts with a mark.
* `CommandLine.Display.run_finishes_iff` : the program shows all records of such a state, in the order of
  their keys, or says that there are none.  It stops at any other record (`run_number`).
-/

namespace BatteryMonitor

open Effect

/-! ### What can be displayed -/

theorem exists_displayInteger {n : Int} (h : Decimal.withinLimit n = true) :
    ∃ text, displayInteger n = .ok text :=
  ⟨_, by rw [displayInteger, if_pos h]⟩

namespace Value

theorem exists_inspectItems {items : List Value} (h : ∀ v ∈ items, ∃ text, v.inspect = .ok text) :
    ∃ parts, inspectItems items = .ok parts := by
  induction items with
  | nil => exact ⟨[], rfl⟩
  | cons v items ih =>
    obtain ⟨⟨part, hpart⟩, hitems⟩ := List.forall_mem_cons.1 h
    obtain ⟨parts, hparts⟩ := ih hitems
    exact ⟨part :: parts, by rw [inspectItems, hpart, hparts]; rfl⟩

theorem exists_inspectMembers {members : List (Key × Value)}
    (h : ∀ p ∈ members, p.1.isText = true ∧ ∃ text, p.2.inspect = .ok text) :
    ∃ parts, inspectMembers members = .ok parts := by
  induction members with
  | nil => exact ⟨[], rfl⟩
  | cons p members ih =>
    obtain ⟨k, v⟩ := p
    obtain ⟨⟨hk, part, hpart⟩, hmembers⟩ := List.forall_mem_cons.1 h
    obtain ⟨name, rfl⟩ := Key.exists_text hk
    obtain ⟨parts, hparts⟩ := ih hmembers
    exact ⟨_, by rw [inspectMembers, hpart, hparts]; rfl⟩

theorem exists_inspect (v : Value) {depth : Nat} (h : v.isLegible depth = true) :
    ∃ text, v.inspect = .ok text := by
  induction v generalizing depth with
  | null | bool | float | text => exact ⟨_, by rw [inspect]⟩
  | int n =>
    rw [inspect]
    exact exists_displayInteger (isLegible_int_iff.1 h)
  | list items ih =>
    obtain ⟨below, rfl⟩ := exists_depth h (Nat.succ_pos _)
    obtain ⟨parts, hparts⟩ := exists_inspectItems fun v hv =>
      ih v hv (isLegible_list_iff.1 h v hv)
    exact ⟨_, by rw [inspect, hparts]; rfl⟩
  | object members ih =>
    obtain ⟨below, rfl⟩ := exists_depth h (Nat.succ_pos _)
    obtain ⟨parts, hparts⟩ := exists_inspectMembers fun p hp =>
      ((isLegible_object_iff.1 h).2 p hp).imp_right (ih p hp)
    exact ⟨_, by rw [inspect, hparts]; rfl⟩

/-- The value is a torn text. -/
def isTorn : Value → Bool
  | .text t => t.isTorn
  | _ => false

/-- **What text can carry can be displayed**, and nothing but a torn text is torn then. -/
theorem exists_display {v : Value} {depth : Nat} (h : v.isLegible depth = true) :
    ∃ text, v.display = .ok text ∧ text.isTorn = v.isTorn := by
  cases v with
  | text t => exact ⟨t, rfl, rfl⟩
  | _ =>
    obtain ⟨text, htext⟩ := exists_inspect _ h
    refine ⟨.whole text, ?_, rfl⟩
    simp only [display, htext]
    rfl

theorem not_isText_of_isTorn {v : Value} (h : v.isTorn = true) (s : String) :
    v.truth = true ∧ v.isText s = false := by
  cases v with
  | text t =>
    cases t with
    | torn t => exact ⟨rfl, rfl⟩
    | whole _ => cases h
  | _ => cases h

end Value

theorem Decimal.withinLimit_of_natAbs_le {m n : Int} (h : m.natAbs ≤ n.natAbs)
    (hn : withinLimit n = true) : withinLimit m = true :=
  decide_eq_true (Nat.lt_of_le_of_lt h (of_decide_eq_true hn))

namespace Status

variable {record : Table Value} {minutes : Value} {depth : Nat} {ending none : String}

/-! ### Minutes -/

/-- The minutes are a number, and there are not infinitely many. -/
def IsTold (minutes : Value) : Prop := ∃ n, minutes.number = .ok n ∧ n.value ≠ .top

/-- The words for minutes, given an ending and what is said when there are none. -/
def timed (minutes : Value) (ending none : String) : Except Fault String := do
  if ← (Value.int 0).less minutes then return (← formatMinutes minutes) ++ ending
  else if ← minutes.less (.int 0) then return "Calculating..."
  else return none

/-- The minutes that are looked at in a record. -/
def minutesOf (record : Table Value) : Value :=
  if (record.getD "Is Charging" .null).truth then record.getD "Time to Full Charge" (.int (-1))
  else record.getD "Time to Empty" (.int (-1))

theorem formatTime_eq_timed (hpresent : (record.getD "Is Present" (.bool false)).truth = true) :
    ∃ ending none, formatTime record = timed (minutesOf record) ending none := by
  unfold formatTime minutesOf
  rw [hpresent]
  cases (record.getD "Is Charging" .null).truth with
  | true => exact ⟨" to full", "Charging...", rfl⟩
  | false =>
    refine ⟨" remaining", if (record.getD "Power Source State" .null).isText acPower then "Charged"
      else "", ?_⟩
    change formatDischarging record = timed (record.getD "Time to Empty" (.int (-1))) _ _
    unfold formatDischarging timed
    cases (record.getD "Power Source State" .null).isText acPower <;> rfl

theorem exists_toInteger {n : Number} {q : ℚ} (hnumber : minutes.number = .ok n)
    (hvalue : n.value = .real q) (hq : 0 ≤ q) (hlegible : minutes.isLegible depth = true) :
    ∃ total, minutes.toInteger = .ok total ∧ Decimal.withinLimit total = true := by
  cases minutes with
  | bool b => cases b <;> exact ⟨_, rfl, Decimal.withinLimit_of_le (k := 0) (by decide) (by decide)⟩
  | int m => exact ⟨m, rfl, Value.isLegible_int_iff.1 hlegible⟩
  | float x =>
    obtain rfl := Except.ok.inj hnumber
    have hx : x.value = .real q := hvalue
    have hfloor : x.floor = .ok q.floor := by rw [Binary64.floor, Binary64.toInteger, hx]
    obtain ⟨k, hk, hbound⟩ := Binary64.natAbs_floor hfloor
    refine ⟨q.floor, ?_, Decimal.withinLimit_of_le hk hbound⟩
    rw [Value.toInteger, Binary64.truncate, Binary64.toInteger, hx]
    exact congrArg Except.ok (Rounding.towardZero_of_nonneg hq)
  | null | text | list | object => cases hnumber

theorem exists_formatMinutes_of_number {n : Number} {q : ℚ} (hnumber : minutes.number = .ok n)
    (hvalue : n.value = .real q) (hq : 0 ≤ q) (hlegible : minutes.isLegible depth = true) :
    ∃ text, formatMinutes minutes = .ok text := by
  obtain ⟨total, htotal, hlimit⟩ := exists_toInteger hnumber hvalue hq hlegible
  have hsmall : (total.fmod 60).natAbs ≤ Nat.pow 2 6 := by
    have hlower := Int.fmod_nonneg_of_pos total (by decide : (0 : Int) < 60)
    have hupper := Int.fmod_lt_of_pos total (by decide : (0 : Int) < 60)
    rw [show Nat.pow 2 6 = 64 from rfl]
    omega
  obtain ⟨rest, hrest⟩ := exists_displayInteger (Decimal.withinLimit_of_le (by decide) hsmall)
  obtain ⟨hours, hhours⟩ := exists_displayInteger
    (Decimal.withinLimit_of_natAbs_le (Int.natAbs_fdiv_le_natAbs total 60) hlimit)
  simp only [formatMinutes, htotal, hrest, hhours, bind, Except.bind, pure, Except.pure]
  split <;> exact ⟨_, rfl⟩

theorem formatMinutes_of_top {n : Number} (hnumber : minutes.number = .ok n)
    (hvalue : n.value = .top) : formatMinutes minutes = .error .tooLarge := by
  cases minutes with
  | float x =>
    obtain rfl := Except.ok.inj hnumber
    have hx : x.value = .top := hvalue
    have hinteger : (Value.float x).toInteger = .error .tooLarge := by
      rw [Value.toInteger, Binary64.truncate, Binary64.toInteger, hx]
    rw [formatMinutes, hinteger]
    rfl
  | bool | int =>
    obtain rfl := Except.ok.inj hnumber
    cases hvalue
  | null | text | list | object => cases hnumber

/-- **Minutes have words iff they are told.** -/
theorem exists_timed_iff (hlegible : minutes.isLegible depth = true) :
    (∃ text, timed minutes ending none = .ok text) ↔ IsTold minutes := by
  have hless {n : Number} (hnumber : minutes.number = .ok n) :
      (Value.int 0).less minutes = .ok (Extended.lt (.real 0) n.value) ∧
        minutes.less (.int 0) = .ok (n.value.lt (.real 0)) := by
    simp only [Value.less, hnumber]
    exact ⟨rfl, rfl⟩
  constructor
  · rintro ⟨text, h⟩
    obtain ⟨positive, hpositive, h⟩ := bind_eq_ok.1 h
    obtain ⟨zero, -, hrest⟩ := bind_eq_ok.1 hpositive
    obtain ⟨n, hnumber, -⟩ := bind_eq_ok.1 hrest
    refine ⟨n, hnumber, fun htop => ?_⟩
    rw [(hless hnumber).1, htop] at hpositive
    obtain rfl : true = positive := Except.ok.inj hpositive
    rw [if_pos rfl, formatMinutes_of_top hnumber htop] at h
    cases h
  · rintro ⟨n, hnumber, htop⟩
    obtain ⟨hpositive, hnegative⟩ := hless hnumber
    simp only [timed, hpositive, hnegative, bind, Except.bind, pure, Except.pure]
    cases hvalue : n.value with
    | top => exact absurd hvalue htop
    | undefined | bottom => exact ⟨_, rfl⟩
    | real q =>
      split
      · rename_i hq
        obtain ⟨duration, hduration⟩ := exists_formatMinutes_of_number hnumber hvalue
          (of_decide_eq_true hq).le hlegible
        exact ⟨_, by rw [hduration]⟩
      · split <;> exact ⟨_, rfl⟩

/-! ### Records -/

/-- None of the texts that a record is shown with is torn. -/
structure IsWhole (record : Table Value) : Prop where
  charge : (record.getD "Current Capacity" (.int 0)).isTorn = false
  health : (record.getD "BatteryHealth" .null).isTorn = false
  failure : (record.getD "Failure" .null).isTorn = false

/-- The record is an object, and if the battery is there, its minutes are told and no text that is
shown is torn. -/
def IsShowable (record : Value) : Prop :=
  ∃ members : Table Value, record = .object members ∧
    ((members.getD "Is Present" (.bool false)).truth = true →
      IsTold (minutesOf members) ∧ IsWhole members)

theorem isLegible_getD {default : Value} (hlegible : (Value.object record).isLegible (depth + 1) = true)
    (hdefault : default.isLegible depth = true) (key : String) :
    (record.getD key default).isLegible depth = true := by
  obtain ⟨hdistinct, hmembers⟩ := Value.isLegible_object_iff.1 hlegible
  rw [Table.getD]
  cases hfind : record.find? (.text key) with
  | none => exact hdefault
  | some v =>
    obtain ⟨l, -, hmem⟩ := (Table.find?_eq_some_iff hdistinct).1 hfind
    exact (hmembers _ hmem).2

theorem isLegible_small {n : Int} (h : n.natAbs ≤ 1) : (Value.int n).isLegible depth = true :=
  Value.isLegible_int_iff.2 (Decimal.withinLimit_of_le (k := 0) (by decide) h)

theorem exists_healthLines (hlegible : (Value.object record).isLegible (depth + 1) = true) :
    ∃ lines, healthLines record = .ok lines ∧
      ((∀ line ∈ lines, line.isTorn = false) ↔ (record.getD "BatteryHealth" .null).isTorn = false) := by
  obtain ⟨text, htext, htorn⟩ :=
    Value.exists_display (isLegible_getD hlegible Value.isLegible_null "BatteryHealth")
  simp only [healthLines, htext, bind, Except.bind, pure, Except.pure]
  split
  · exact ⟨_, rfl, by simp [indented, htorn]⟩
  · rename_i hsilent
    refine ⟨_, rfl, iff_of_true (List.forall_mem_nil _) (Bool.eq_false_iff.2 fun h => hsilent ?_)⟩
    -- a torn text would be told of
    obtain ⟨htruth, hgood⟩ := Value.not_isText_of_isTorn h Rating.good.word
    rw [htruth, hgood]
    rfl

theorem exists_failureLines (hlegible : (Value.object record).isLegible (depth + 1) = true) :
    ∃ lines, failureLines record = .ok lines ∧
      ((∀ line ∈ lines, line.isTorn = false) ↔ (record.getD "Failure" .null).isTorn = false) := by
  obtain ⟨text, htext, htorn⟩ :=
    Value.exists_display (isLegible_getD hlegible Value.isLegible_null "Failure")
  simp only [failureLines, htext, bind, Except.bind, pure, Except.pure]
  split
  · exact ⟨_, rfl, by simp [indented, htorn]⟩
  · rename_i hsilent
    refine ⟨_, rfl, iff_of_true (List.forall_mem_nil _) (Bool.eq_false_iff.2 fun h => hsilent ?_)⟩
    exact (Value.not_isText_of_isTorn h "").1

theorem isTorn_timeLines (time : String) : ∀ line ∈ timeLines time, line.isTorn = false := by
  unfold timeLines
  split
  · exact List.forall_mem_nil _
  · exact List.forall_mem_singleton.2 rfl

/-- The first line of a battery that is there tells its charge; only its time may have no words. -/
theorem formatRecord_present (hlegible : (Value.object record).isLegible (depth + 1) = true)
    (hpresent : (record.getD "Is Present" (.bool false)).truth = true) :
    ∃ (charge : Text) (mark : String) (tail : List Text),
      formatRecord record = formatTime record >>= (fun time =>
        .ok ((charge.prepend "> ").append mark :: (timeLines time ++ tail))) ∧
      ((∀ line ∈ charge :: tail, line.isTorn = false) ↔ IsWhole record) := by
  obtain ⟨charge, hcharge, hcharge'⟩ :=
    Value.exists_display (isLegible_getD hlegible (isLegible_small (n := 0) (by decide))
      "Current Capacity")
  obtain ⟨health, hhealth, hhealth'⟩ := exists_healthLines hlegible
  obtain ⟨failure, hfailure, hfailure'⟩ := exists_failureLines hlegible
  refine ⟨charge, "%" ++ if (record.getD "Is Charging" .null).truth then " CHG" else "",
    health ++ failure, ?_, ?_⟩
  · simp only [formatRecord, hpresent, hcharge, hhealth, hfailure, bind, Except.bind, pure,
      Except.pure, Bool.not_true, Bool.false_eq_true, if_false, List.append_assoc]
    rfl
  · rw [List.forall_mem_cons, List.forall_mem_append, hhealth', hfailure', hcharge']
    exact ⟨fun ⟨hcharge, hhealth, hfailure⟩ => ⟨hcharge, hhealth, hfailure⟩,
      fun h => ⟨h.charge, h.health, h.failure⟩⟩

/-- **A record has lines that are strings iff it can be shown**, and the first of them starts with a
mark. -/
theorem formatRecord_spec (hlegible : (Value.object record).isLegible (depth + 1) = true) :
    ((∃ lines : List String, formatRecord record = .ok (lines.map .whole)) ↔
      ((record.getD "Is Present" (.bool false)).truth = true →
        IsTold (minutesOf record) ∧ IsWhole record)) ∧
    ∀ lines : List String, formatRecord record = .ok (lines.map .whole) →
      ∃ text rest, lines = ("> " ++ text) :: rest := by
  cases hpresent : (record.getD "Is Present" (.bool false)).truth with
  | false =>
    have hform : formatRecord record = .ok [.whole "> --"] := by
      rw [formatRecord, hpresent]
      rfl
    refine ⟨iff_of_true ⟨["> --"], hform⟩ nofun, fun lines h => ⟨"--", [], ?_⟩⟩
    have hlines : lines.map Text.whole = ["> --"].map .whole := Except.ok.inj (h.symm.trans hform)
    exact (List.map_inj_right fun _ _ => Text.whole.inj).1 hlines
  | true =>
    obtain ⟨charge, mark, tail, hform, hwhole⟩ := formatRecord_present hlegible hpresent
    have hminutes : (minutesOf record).isLegible depth = true := by
      have hnone : (Value.int (-1)).isLegible depth = true := isLegible_small (by decide)
      unfold minutesOf
      split
      · exact isLegible_getD hlegible hnone _
      · exact isLegible_getD hlegible hnone _
    obtain ⟨ending, none, htime⟩ := formatTime_eq_timed hpresent
    rw [hform, ← exists_timed_iff hminutes, htime, ← hwhole]
    refine ⟨⟨?_, fun h => ?_⟩, fun lines h => ?_⟩
    · rintro ⟨lines, h⟩ -
      obtain ⟨time, htimed, hlines⟩ := bind_eq_ok.1 h
      obtain ⟨hfirst, hrest⟩ :=
        List.forall_mem_cons.1 (Text.exists_map_whole_iff.1 ⟨lines, Except.ok.inj hlines⟩)
      rw [Text.isTorn_append, Text.isTorn_prepend] at hfirst
      exact ⟨⟨time, htimed⟩, List.forall_mem_cons.2 ⟨hfirst, (List.forall_mem_append.1 hrest).2⟩⟩
    · obtain ⟨⟨time, htimed⟩, hall⟩ := h rfl
      obtain ⟨hcharge, htail⟩ := List.forall_mem_cons.1 hall
      have hfirst : ((charge.prepend "> ").append mark).isTorn = false := by
        rw [Text.isTorn_append, Text.isTorn_prepend, hcharge]
      obtain ⟨lines, hlines⟩ := Text.exists_map_whole_iff.2 (List.forall_mem_cons.2
        ⟨hfirst, List.forall_mem_append.2 ⟨isTorn_timeLines time, htail⟩⟩)
      exact ⟨lines, bind_eq_ok.2 ⟨time, htimed, congrArg Except.ok hlines⟩⟩
    · obtain ⟨time, -, hlines⟩ := bind_eq_ok.1 h
      have hlines := Except.ok.inj hlines
      cases lines with
      | nil => cases hlines
      | cons line lines =>
        obtain ⟨hline, -⟩ := List.cons.inj hlines
        cases charge with
        | torn t => cases hline
        | whole charge =>
          exact ⟨charge ++ mark, lines, congrArg (· :: lines)
            ((Text.whole.inj hline).symm.trans (String.append_assoc ..))⟩

end Status

namespace CommandLine.Display

variable {site : Site} {d : Disk} {o : Outcome} {records : List (Key × Value)}

/-- The lines of a record, if it has some. -/
def linesOf (record : Value) : Except Fault (List Text) :=
  Status.members record >>= Status.formatRecord

/-- Lines as they are printed. -/
def printed : List String → String
  | [] => ""
  | line :: lines => line ++ "\n" ++ printed lines

theorem printed_append (lines lines' : List String) :
    printed (lines ++ lines') = printed lines ++ printed lines' := by
  induction lines with
  | nil => exact String.empty_append.symm
  | cons line lines ih => simp only [List.cons_append, printed, ih, String.append_assoc]

theorem sayLines_cases (o : Outcome) (lines : List Text) :
    (∃ strings : List String, lines = strings.map .whole ∧
      o.sayLines lines = .ok { o with output := o.output ++ printed strings }) ∨
    (∀ strings : List String, lines ≠ strings.map .whole) ∧
      ∃ stopped, o.sayLines lines = .error stopped ∧ stopped.ending = .stopped .badValue := by
  induction lines generalizing o with
  | nil =>
    refine .inl ⟨[], rfl, ?_⟩
    rw [printed, String.append_empty]
    rfl
  | cons line lines ih =>
    cases line with
    | torn t =>
      refine .inr ⟨fun strings h => ?_, _, rfl, rfl⟩
      cases strings <;> cases h
    | whole line =>
      rcases ih (o.say line) with ⟨strings, rfl, hsay⟩ | ⟨hnot, stopped, hsay, hstopped⟩
      · refine .inl ⟨line :: strings, rfl, ?_⟩
        rw [Outcome.sayLines, hsay, printed]
        simp only [Outcome.say, String.append_assoc]
      · refine .inr ⟨fun strings h => ?_, stopped, hsay, hstopped⟩
        cases strings with
        | nil => cases h
        | cons s strings => exact hnot strings (List.cons.inj h).2

section SayAll

variable {p : Key × Value} {lines : List Text}

theorem sayAll_of_fault {fault : Fault} (h : linesOf p.2 = .error fault) :
    sayAll o (p :: records) = { o with ending := .stopped fault } := by
  rw [linesOf] at h
  rw [sayAll, h]

theorem sayAll_of_torn {stopped : Outcome} (h : linesOf p.2 = .ok lines)
    (hsay : o.sayLines lines = .error stopped) : sayAll o (p :: records) = stopped := by
  rw [linesOf] at h
  simp only [sayAll, h, hsay]

theorem sayAll_of_lines {o' : Outcome} (h : linesOf p.2 = .ok lines)
    (hsay : o.sayLines lines = .ok o') : sayAll o (p :: records) = sayAll o' records := by
  rw [linesOf] at h
  simp only [sayAll, h, hsay]

end SayAll

/-- **All records are shown one after the other, or the program stops at one of them.** -/
theorem sayAll_cases (o : Outcome) (records : List (Key × Value)) :
    (∃ groups : List (List String),
      List.Forall₂ (fun p lines => linesOf p.2 = .ok (lines.map .whole)) records groups ∧
      sayAll o records = { o with output := o.output ++ printed groups.flatten }) ∨
    ∃ p ∈ records, (∀ lines : List String, linesOf p.2 ≠ .ok (lines.map .whole)) ∧
      ∃ fault, (sayAll o records).ending = .stopped fault := by
  induction records generalizing o with
  | nil =>
    left
    refine ⟨[], .nil, ?_⟩
    rw [List.flatten_nil, printed, String.append_empty]
    rfl
  | cons p records ih =>
    cases hlines : linesOf p.2 with
    | error fault =>
      right
      refine ⟨p, List.mem_cons_self, fun strings h => ?_, fault, ?_⟩
      · rw [hlines] at h
        cases h
      · rw [sayAll_of_fault hlines]
    | ok lines =>
      rcases sayLines_cases o lines with ⟨strings, rfl, hsay⟩ | ⟨hnot, stopped, hsay, hstopped⟩
      · rw [sayAll_of_lines hlines hsay]
        rcases ih { o with output := o.output ++ printed strings } with
          ⟨groups, hgroups, hall⟩ | ⟨p', hmem, hnot, hstop⟩
        · left
          refine ⟨strings :: groups, .cons hlines hgroups, ?_⟩
          rw [hall, List.flatten_cons, printed_append, String.append_assoc]
        · exact .inr ⟨p', List.mem_cons_of_mem _ hmem, hnot, hstop⟩
      · right
        refine ⟨p, List.mem_cons_self, fun strings h => ?_, .badValue, ?_⟩
        · exact hnot strings (Except.ok.inj (hlines.symm.trans h))
        · rw [sayAll_of_torn hlines hsay, hstopped]

/-! ### The state -/

/-- **A state is loaded** unless its path cannot be asked for or its text nests too deeply. -/
theorem exists_loadState_iff {path : Path} : (∃ state, d.loadState path = .ok state) ↔
    (∃ there, d.hasPath path = .ok there) ∧ d.content path ≠ .error .tooDeep := by
  cases hpath : d.hasPath path with
  | error fault =>
    rw [Disk.loadState, hpath]
    exact iff_of_false nofun nofun
  | ok there =>
    rw [and_iff_right ⟨there, rfl⟩, Disk.loadState, hpath]
    cases there with
    | false =>
      obtain ⟨fault, hfault, hne⟩ := Disk.content_of_absent hpath
      exact iff_of_true ⟨[], rfl⟩ fun hdeep => hne (Except.error.inj (hfault.symm.trans hdeep))
    | true =>
      have hread : (d.read path >>= Json.parseBytes) = d.content path := rfl
      simp only [bind, Except.bind, Bool.not_true, Bool.false_eq_true, if_false] at hread ⊢
      rw [hread]
      split
      · rename_i hcontent
        exact iff_of_true ⟨_, rfl⟩ (by rw [hcontent]; exact nofun)
      · rename_i hcontent
        exact iff_of_false nofun (not_not.2 hcontent)
      · rename_i hdeep
        exact iff_of_true ⟨_, rfl⟩ hdeep

theorem isLegible_of_loadState {path : Path} {state : Table Value}
    (h : d.loadState path = .ok state) : (Value.object state).isLegible Json.nestingLimit = true :=
  (Store.legible_onFile (Store.onFile_eq_ok_iff.2 ⟨state, h, rfl⟩)).object

theorem exists_sortMembers {state : Table Value} {depth : Nat}
    (h : (Value.object state).isLegible (depth + 1) = true) :
    ∃ records, Json.sortMembers state = .ok records ∧ records.Perm state ∧
      records.Pairwise fun p q => Json.keyString p.1 < Json.keyString q.1 := by
  obtain ⟨hdistinct, hmembers⟩ := Value.isLegible_object_iff.1 h
  have htext : ∀ p ∈ state, p.1.isText = true := fun p hp => (hmembers p hp).1
  have hperm := Value.perm_inOrder state
  refine ⟨Value.inOrder state, Json.sortMembers_of_texts htext, hperm, ?_⟩
  have hapart := List.pairwise_map.1 (hdistinct.perm hperm.symm)
  refine ((Table.pairwise_mergeSort_keys state).and hapart).imp_of_mem fun {p q} hp hq hpq => ?_
  obtain ⟨hle, hne⟩ := hpq
  obtain ⟨name, hname⟩ := Key.exists_text (htext p (hperm.mem_iff.1 hp))
  obtain ⟨name', hname'⟩ := Key.exists_text (htext q (hperm.mem_iff.1 hq))
  rw [hname, hname'] at hle hne
  rw [hname, hname']
  exact Text.not_le.1 fun hge =>
    hne (congrArg Entry.text (Text.le_antisymm (of_decide_eq_true hle) hge))

/-! ### The program -/

section Run

variable {named : String} {rest : List String} {state : Table Value}

theorem run_of_fault {fault : Fault} (h : d.loadState (.ofString named) = .error fault) :
    run site d (named :: rest) = .stopping fault := by
  simp only [run, stateFile, h, bind, Except.bind]

theorem run_of_records (h : d.loadState (.ofString named) = .ok state)
    (hsort : Json.sortMembers state = .ok records) : run site d (named :: rest) =
      if records = [] then Outcome.say {} nothingKnown else sayAll {} records := by
  simp only [run, stateFile, h, hsort, bind, Except.bind]
  cases records <;> rfl

theorem linesOf_spec {depth : Nat} {record : Value} (h : record.isLegible (depth + 1) = true) :
    ((∃ lines : List String, linesOf record = .ok (lines.map .whole)) ↔
      Status.IsShowable record) ∧
    ∀ lines : List String, linesOf record = .ok (lines.map .whole) →
      ∃ text rest, lines = ("> " ++ text) :: rest := by
  cases record with
  | object members =>
    obtain ⟨hiff, hmark⟩ := Status.formatRecord_spec h
    refine ⟨hiff.trans ⟨fun htold => ⟨members, rfl, htold⟩, ?_⟩, hmark⟩
    rintro ⟨_, ⟨⟩, htold⟩
    exact htold
  | _ => exact ⟨iff_of_false nofun nofun, nofun⟩

theorem run_of_state (h : d.loadState (.ofString named) = .ok state) :
    (state = [] ∧ run site d (named :: rest) = Outcome.say {} nothingKnown) ∨
    (∃ p ∈ state, ¬ Status.IsShowable p.2 ∧
      ∃ fault, (run site d (named :: rest)).ending = .stopped fault) ∨
    ((∀ p ∈ state, Status.IsShowable p.2) ∧ state ≠ [] ∧
      ∃ records groups, records.Perm state ∧
        records.Pairwise (fun p q => Json.keyString p.1 < Json.keyString q.1) ∧
        List.Forall₂ (fun p lines => linesOf p.2 = .ok (lines.map .whole) ∧
          ∃ text rest, lines = ("> " ++ text) :: rest) records groups ∧
        run site d (named :: rest) = { output := printed groups.flatten }) := by
  have hlegible := isLegible_of_loadState h
  obtain ⟨records, hsort, hperm, hpairwise⟩ := exists_sortMembers hlegible
  rw [run_of_records h hsort]
  have hmembers : ∀ p ∈ records, p.2.isLegible (Json.nestingLimit - 2 + 1) = true := fun p hp =>
    ((Value.isLegible_object_iff.1 hlegible).2 p (hperm.mem_iff.1 hp)).2
  by_cases hnil : records = []
  · left
    rw [if_pos hnil]
    subst hnil
    exact ⟨List.nil_perm.1 hperm, rfl⟩
  rw [if_neg hnil]
  right
  rcases sayAll_cases {} records with ⟨groups, hgroups, hall⟩ | ⟨p, hp, hnot, fault, hstop⟩
  · right
    have hshown : ∀ p ∈ records, ∃ lines : List String, linesOf p.2 = .ok (lines.map .whole) :=
      ((List.forall₂_and_left _ _).1 (hgroups.imp fun p lines h => ⟨⟨lines, h⟩, h⟩)).1
    have hmarked := (List.forall₂_and_left _ _).2 ⟨hmembers, hgroups⟩
    refine ⟨fun p hp => ?_, fun hstate => ?_, records, groups, hperm, hpairwise, ?_, ?_⟩
    · have hp' := hperm.mem_iff.2 hp
      exact (linesOf_spec (hmembers p hp')).1.1 (hshown p hp')
    · subst hstate
      exact hnil hperm.eq_nil
    · exact hmarked.imp fun p lines ⟨hp, hlines⟩ => ⟨hlines, (linesOf_spec hp).2 lines hlines⟩
    · rw [hall, String.empty_append]
  · left
    refine ⟨p, hperm.mem_iff.1 hp, fun hshowable => ?_, fault, hstop⟩
    obtain ⟨lines, hlines⟩ := (linesOf_spec (hmembers p hp)).1.2 hshowable
    exact hnot lines hlines

/-- **The program runs to its end iff every record can be shown**, of a state that can be loaded; a
state is loaded unless the path of the file cannot be asked for or its text nests too deeply.  At its
end the program has said that there is nothing, or printed at least one line for every record, in the
order of their keys by code points, and the first of them starts with a mark. -/
theorem run_finishes_iff (site : Site) (d : Disk) (named : String) (rest : List String) :
    let path := Path.ofString named
    let outcome := run site d (named :: rest)
    ((∃ state, d.loadState path = .ok state) ↔
      (∃ there, d.hasPath path = .ok there) ∧ d.content path ≠ .error .tooDeep) ∧
    (outcome.ending = .finished 0 ↔ ∃ state, d.loadState path = .ok state ∧
      ∀ p ∈ state, Status.IsShowable p.2) ∧
    (outcome.ending = .finished 0 → outcome.errors = "" ∧
      ∃ state, d.loadState path = .ok state ∧
        (state = [] → outcome.output = "> N/A\n") ∧
        (state ≠ [] → ∃ records groups, records.Perm state ∧
          records.Pairwise (fun p q => Json.keyString p.1 < Json.keyString q.1) ∧
          List.Forall₂ (fun p lines => linesOf p.2 = .ok (lines.map .whole) ∧
            ∃ text rest, lines = ("> " ++ text) :: rest) records groups ∧
          outcome.output = printed groups.flatten)) := by
  intro path outcome
  have houtcome : outcome = run site d (named :: rest) := rfl
  rw [exists_loadState_iff]
  refine ⟨.rfl, ?_⟩
  cases hload : d.loadState path with
  | error fault =>
    rw [houtcome, run_of_fault hload]
    exact ⟨iff_of_false nofun nofun, nofun⟩
  | ok state =>
    have hsame {Q : Table Value → Prop} :
        (∃ t, (.ok state : Except Fault (Table Value)) = .ok t ∧ Q t) ↔ Q state :=
      ⟨fun ⟨t, ht, hq⟩ => Except.ok.inj ht ▸ hq, fun hq => ⟨state, rfl, hq⟩⟩
    rw [hsame, hsame]
    rcases run_of_state hload with ⟨hnil, hrun⟩ | ⟨p, hp, hnot, fault, hstop⟩ |
      ⟨hall, hne, records, groups, hperm, hpairwise, hgroups, hrun⟩
    · rw [houtcome, hrun]
      subst hnil
      exact ⟨iff_of_true rfl (List.forall_mem_nil _),
        fun _ => ⟨rfl, fun _ => rfl, fun h => absurd rfl h⟩⟩
    · rw [houtcome, hstop]
      exact ⟨iff_of_false nofun fun hall => hnot (hall p hp), nofun⟩
    · rw [houtcome, hrun]
      exact ⟨iff_of_true rfl hall, fun _ => ⟨rfl, fun h => absurd h hne,
        fun _ => ⟨records, groups, hperm, hpairwise, hgroups, rfl⟩⟩⟩

/-- **The program stops at a record that is no object**, although the state file is a valid one. -/
theorem run_number :
    let d : Disk := { nodes := [(["state.json"], .file "\x7b\"a\": 1\x7d".toUTF8)] }
    ∀ site, run site d ["state.json"] = .stopping .notRecord := by
  intro d site
  have hload : d.loadState (.ofString "state.json") = .ok [(.text "a", .int 1)] :=
    eq_ok_of_toOption (by decide +kernel)
  have hsort : Json.sortMembers [(Key.text "a", Value.int 1)] = .ok [(.text "a", .int 1)] :=
    eq_ok_of_toOption (by decide +kernel)
  rw [run_of_records hload hsort]
  rfl

end Run

end CommandLine.Display

end BatteryMonitor
