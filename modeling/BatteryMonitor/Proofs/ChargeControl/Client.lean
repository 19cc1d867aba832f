import BatteryMonitor.Proofs.ChargeControl.Controller

/-!
# Requests that are refused

Clients of one controller may ask at any time, as administrators or not.  The answer to a request tells
whether it was refused, and why (`Controlled.outcome_request`).  One that is refused leaves everything
as it is (`Controlled.after_refused`), so that a history without its refused requests leaves the same
states (`Controlled.afterAll_filter`).

* `Controlled.refused_invisible` : what shows of a history without its refused requests is what shows of
  the whole one, apart from them.
-/

namespace BatteryMonitor

theorem Value.equal_int (v : Value) (n : Int) : v.equal (.int n) = v.equalsInt n := by
  cases v with
  | float x => cases x <;> rfl
  | _ => rfl

/-- **A level is a value that equals zero or one.** -/
theorem Client.isLevel_eq_false_iff {level : Value} : Client.isLevel level = false ↔
    level.equal (.int 0) = false ∧ level.equal (.int 1) = false := by
  rw [isLevel, Bool.or_eq_false_iff, Value.equal_int, Value.equal_int]

namespace Controlled

open Effect

variable {σ : Type} {s : Controlled σ} {poller : Option (Value → M σ Unit)} {r : Restriction}
  {isAdmin : Bool} {level : Value}

namespace Event

/-- A request for no level, or by somebody who is no administrator. -/
def isRefused : Event → Bool
  | request _ isAdmin level => !(Client.isLevel level && isAdmin)
  | command .. | files _ => false

theorem isRefused_request (r : Restriction) (isAdmin : Bool) (level : Value) :
    (request r isAdmin level).isRefused = !(Client.isLevel level && isAdmin) := rfl

end Event

/-- What an event gives. -/
def outcome (poller : Option (Value → M σ Unit)) (s : Controlled σ) (e : Event) :
    Except Fault (Option ReturnCode) :=
  ((e.act poller).run.run s).1

variable (poller s r level) in
theorem outcome_command_ne {code : ReturnCode} (hsuccess : code ≠ .success)
    (herror : code ≠ .error) : outcome poller s (.command r level) ≠ .ok (some code) := by
  have hmap : outcome poller s (.command r level) =
      ((command (r.command level)).run.run s).1.map some := by
    rw [outcome, Event.act, run_map]
  rw [hmap]
  rcases command_cases r level s with ⟨d', hdone, -⟩ | ⟨result, hdone, hfailed⟩
  · rw [show (command (r.command level)).run.run s = _ from hdone]
    exact fun heq => hsuccess (Option.some.inj (Except.ok.inj heq)).symm
  · rw [hdone]
    rcases hfailed with rfl | ⟨fault, rfl⟩
    · exact fun heq => herror (Option.some.inj (Except.ok.inj heq)).symm
    · intro heq
      cases heq

variable (poller) in
/-- **The answer to a request tells whether it was refused, and why.** -/
theorem outcome_request (r : Restriction) (isAdmin : Bool) (level : Value) (s : Controlled σ) :
    (outcome poller s (.request r isAdmin level) = .ok (some .badArgument) ↔
      Client.isLevel level = false) ∧
    (outcome poller s (.request r isAdmin level) = .ok (some .notPrivileged) ↔
      Client.isLevel level = true ∧ isAdmin = false) := by
  rw [outcome, act_request]
  cases Client.isLevel level with
  | false => exact ⟨iff_of_true rfl rfl, iff_of_false nofun nofun⟩
  | true =>
    cases isAdmin with
    | false => exact ⟨iff_of_false nofun nofun, iff_of_true rfl ⟨rfl, rfl⟩⟩
    | true =>
      exact ⟨iff_of_false (outcome_command_ne s poller r level nofun nofun) nofun,
        iff_of_false (outcome_command_ne s poller r level nofun nofun) nofun⟩

/-- A refused event does nothing. -/
theorem after_refused {e : Event} (h : e.isRefused = true) : after (e.act poller) s = s := by
  cases e with
  | command | files => cases h
  | request r isAdmin level =>
    rw [Event.isRefused_request] at h
    rw [act_request]
    cases hlevel : Client.isLevel level with
    | false => rfl
    | true =>
      cases isAdmin with
      | false => rfl
      | true => rw [hlevel] at h; cases h

/-! ### What shows of a history -/

/-- Every event of a history with what it gave and the state that it left, the last one first. -/
def trace (poller : Option (Value → M σ Unit)) (s : Controlled σ) :
    List Event → List (Event × Except Fault (Option ReturnCode) × Controlled σ)
  | [] => []
  | e :: past => (e, outcome poller (afterAll (Event.act poller) s past) e,
      afterAll (Event.act poller) s (e :: past)) :: trace poller s past

theorem afterAll_filter (past : List Event) :
    afterAll (Event.act poller) s (past.filter (!·.isRefused)) =
      afterAll (Event.act poller) s past := by
  induction past with
  | nil => rfl
  | cons e past ih =>
    cases hrefused : e.isRefused with
    | true =>
      rw [List.filter_cons_of_neg (by simp [hrefused]), ih, afterAll, after_refused hrefused]
    | false => rw [List.filter_cons_of_pos (by simp [hrefused]), afterAll, ih, afterAll]

theorem trace_filter (past : List Event) :
    trace poller s (past.filter (!·.isRefused)) =
      (trace poller s past).filter (!·.1.isRefused) := by
  induction past with
  | nil => rfl
  | cons e past ih =>
    have hlast : afterAll (Event.act poller) s (e :: past.filter (!·.isRefused)) =
        afterAll (Event.act poller) s (e :: past) := by
      rw [afterAll, afterAll_filter, afterAll]
    cases hrefused : e.isRefused with
    | true =>
      rw [List.filter_cons_of_neg (by simp [hrefused]), trace,
        List.filter_cons_of_neg (by simp [hrefused]), ih]
    | false =>
      rw [List.filter_cons_of_pos (by simp [hrefused]), trace, trace,
        List.filter_cons_of_pos (by simp [hrefused]), afterAll_filter, hlast, ih]

/-- **Requests that were refused leave no trace.**  Whatever has happened, a request is answered with a
bad argument iff its level equals neither zero nor one, and else with a lack of privilege iff its
caller is no administrator.  Without the events that were refused so, everything that is left has the
same outcomes and leaves the same states. -/
theorem refused_invisible (poller : Option (Value → M σ Unit)) (s : Controlled σ)
    (past : List Event) :
    (∀ r isAdmin level,
      let now := afterAll (Event.act poller) s past
      let e := Event.request r isAdmin level
      (outcome poller now e = .ok (some .badArgument) ↔
        level.equal (.int 0) = false ∧ level.equal (.int 1) = false) ∧
      (outcome poller now e = .ok (some .notPrivileged) ↔
        ¬ (level.equal (.int 0) = false ∧ level.equal (.int 1) = false) ∧ isAdmin = false) ∧
      (e.isRefused = true ↔ outcome poller now e = .ok (some .badArgument) ∨
        outcome poller now e = .ok (some .notPrivileged))) ∧
    trace poller s (past.filter (!·.isRefused)) = (trace poller s past).filter (!·.1.isRefused) ∧
    afterAll (Event.act poller) s (past.filter (!·.isRefused)) =
      afterAll (Event.act poller) s past := by
  refine ⟨fun r isAdmin level => ?_, trace_filter past, afterAll_filter past⟩
  intro now e
  obtain ⟨hbad, hdenied⟩ := outcome_request poller r isAdmin level now
  have hlevel : Client.isLevel level = true ↔
      ¬ (level.equal (.int 0) = false ∧ level.equal (.int 1) = false) := by
    rw [← Client.isLevel_eq_false_iff, Bool.not_eq_false]
  refine ⟨hbad.trans Client.isLevel_eq_false_iff, hdenied.trans (and_congr_left' hlevel), ?_⟩
  rw [hbad, hdenied, Event.isRefused_request]
  cases Client.isLevel level <;> cases isAdmin <;> decide

end Controlled

end BatteryMonitor
