import BatteryMonitor.ChargeControl
import BatteryMonitor.Proofs.Disk

/-!
# What a controller makes of commands that fail

A command is one of two restrictions with a level (`Restriction`).  The controller remembers the level
before it writes its file (`Controlled.run_command`), and so what it writes is the behaviour that was
asked for last, whether the commands that asked for it succeeded or not
(`Controlled.controller_afterAll`).

* `Controlled.act_request` : a client refuses a request, or passes it on as a command;
* `Controlled.failed_command_iff` : a command that failed has no effect, then or later, iff it asked for
  what had been asked for before.
-/

namespace BatteryMonitor

/-- What can be put on the charge of a battery. -/
inductive Restriction where
  /-- no inflow -/
  | inflow
  /-- no charging -/
  | charging
  deriving DecidableEq

namespace Restriction

/-- The other restriction. -/
def other : Restriction → Restriction
  | inflow => charging
  | charging => inflow

/-- What the controller's file holds if these restrictions are in force. -/
def text (on : Restriction → Bool) : String :=
  Controller.behaviour (on inflow) (on charging) ++ "\n"

/-- **What the file holds tells which restrictions are in force**, but not whether charging is inhibited
while there is no inflow. -/
theorem text_eq_iff {on on' : Restriction → Bool} :
    text on = text on' ↔
      on inflow = on' inflow ∧ (on inflow = true ∨ on charging = on' charging) := by
  have htable : ∀ a b a' b' : Bool,
      Controller.behaviour a b ++ "\n" = Controller.behaviour a' b' ++ "\n" ↔
        a = a' ∧ (a = true ∨ b = b') := by decide
  exact htable _ _ _ _

/-- The command of the controller. -/
def command (level : Value) :
    Restriction → Controller → Disk → Except Fault ReturnCode × Controller × Disk
  | inflow => Controller.disableInflow level
  | charging => Controller.inhibitCharging level

/-- The command of a client of the controller. -/
def request {σ : Type} (poller : Option (Value → Controlled.M σ Unit)) (isAdmin : Bool)
    (level : Value) : Restriction → Controlled.M σ ReturnCode
  | inflow => Client.disableInflow (some (Controlled.owner poller)) isAdmin level
  | charging => Client.inhibitCharging (some (Controlled.owner poller)) isAdmin level

end Restriction

namespace Controller

variable {c : Controller} {d d' : Disk}

/-- The restriction is asked for. -/
def asks (c : Controller) : Restriction → Bool
  | .inflow => c.inflowDisabled
  | .charging => c.chargeInhibited

/-- The controller with a restriction asked for, or no longer. -/
def ask (c : Controller) (r : Restriction) (on : Bool) : Controller :=
  match r with
  | .inflow => { c with inflowDisabled := on }
  | .charging => { c with chargeInhibited := on }

@[simp] theorem path_ask (r : Restriction) (on : Bool) : (c.ask r on).path = c.path := by
  cases r <;> rfl

@[simp] theorem asks_ask (r r' : Restriction) (on : Bool) :
    (c.ask r on).asks r' = if r = r' then on else c.asks r' := by
  cases r <;> cases r' <;> rfl

theorem ask_self (r : Restriction) : c.ask r (c.asks r) = c := by
  cases r <;> rfl

theorem apply_eq (c : Controller) (d : Disk) : c.apply d =
    match d.writeText c.path (Restriction.text c.asks) with
    | .ok written => (.ok .success, written)
    | .error (.disk _) => (.ok .error, d)
    | .error fault => (.error fault, d) := rfl

theorem apply_of_writeText (h : d.writeText c.path (Restriction.text c.asks) = .ok d') :
    c.apply d = (.ok .success, d') := by
  rw [apply_eq, h]

/-- What a command gives that does not succeed. -/
def IsFailure (result : Except Fault ReturnCode) : Prop :=
  result = .ok .error ∨ ∃ fault, result = .error fault

theorem IsFailure.ne {result : Except Fault ReturnCode} (h : IsFailure result) {code : ReturnCode}
    (hcode : code ≠ .error) : result ≠ .ok code := by
  rcases h with rfl | ⟨fault, rfl⟩
  · exact fun heq => hcode (Except.ok.inj heq).symm
  · exact nofun

theorem apply_cases (c : Controller) (d : Disk) :
    (∃ d', c.apply d = (.ok .success, d') ∧ d.writeText c.path (Restriction.text c.asks) = .ok d') ∨
    ∃ result, c.apply d = (result, d) ∧ IsFailure result := by
  cases hwrite : d.writeText c.path (Restriction.text c.asks) with
  | ok d' => exact .inl ⟨d', apply_of_writeText hwrite, rfl⟩
  | error fault =>
    refine .inr ?_
    rw [apply_eq, hwrite]
    cases fault with
    | disk trouble => exact ⟨_, rfl, .inl rfl⟩
    | _ => exact ⟨_, rfl, .inr ⟨_, rfl⟩⟩

theorem command_eq (r : Restriction) (level : Value) (c : Controller) (d : Disk) :
    r.command level c d = (((c.ask r level.truth).apply d).1, c.ask r level.truth,
      ((c.ask r level.truth).apply d).2) := by
  cases r <;> rfl

end Controller

namespace ReturnCode

theorem ofValue_number (code : ReturnCode) : ofValue (.int code.number) = .ok code := by
  cases code <;> rfl

end ReturnCode

namespace Controlled

open Effect

variable {σ : Type} {s s' : Controlled σ} {poller : Option (Value → M σ Unit)}

/-! ### Commands and requests -/

theorem run_command (r : Restriction) (level : Value) (s : Controlled σ) :
    (command (r.command level)).run.run s =
      (((s.controller.ask r level.truth).apply s.disk).1,
        { s with
          controller := s.controller.ask r level.truth
          disk := ((s.controller.ask r level.truth).apply s.disk).2 }) := by
  unfold command
  rw [run_get_bind, Controller.command_eq]
  generalize (s.controller.ask r level.truth).apply s.disk = written
  obtain ⟨fault | code, d⟩ := written <;> rfl

theorem bind_ofValue_number (act : M σ ReturnCode) : (do
    let v ← (do return .int (← act).number : M σ Value)
    Client.ofExcept (ReturnCode.ofValue v)) = act := by
  have hcode : ∀ code : ReturnCode,
      (Client.ofExcept (ReturnCode.ofValue (.int code.number)) : M σ ReturnCode) = pure code := by
    intro code
    rw [ReturnCode.ofValue_number]
    rfl
  rw [bind_assoc]
  simp only [pure_bind, hcode, bind_pure]

theorem secured_owner {command : Owner (M σ) → Value → M σ Value} {act : M σ ReturnCode}
    {level : Value} (h : command (owner poller) level = do return .int (← act).number)
    (isAdmin : Bool) :
    Client.secured command (some (owner poller)) isAdmin level =
      if Client.isLevel level = false then pure .badArgument
      else if isAdmin = false then pure .notPrivileged
      else act := by
  unfold Client.secured
  cases Client.isLevel level with
  | false => rfl
  | true =>
    cases isAdmin with
    | false => rfl
    | true =>
      simp only [h]
      exact bind_ofValue_number act

theorem request_eq (r : Restriction) (isAdmin : Bool) (level : Value) :
    r.request poller isAdmin level =
      if Client.isLevel level = false then pure .badArgument
      else if isAdmin = false then pure .notPrivileged
      else command (r.command level) := by
  cases r with
  | inflow => exact secured_owner rfl isAdmin
  | charging => exact secured_owner rfl isAdmin

theorem command_cases (r : Restriction) (level : Value) (s : Controlled σ) :
    let c := s.controller.ask r level.truth
    (∃ d', Completes (command (r.command level)) s .success { s with controller := c, disk := d' } ∧
      s.disk.writeText c.path (Restriction.text c.asks) = .ok d') ∨
    ∃ result, (command (r.command level)).run.run s = (result, { s with controller := c }) ∧
      Controller.IsFailure result := by
  intro c
  have hrun : (command (r.command level)).run.run s =
      ((c.apply s.disk).1, { s with controller := c, disk := (c.apply s.disk).2 }) :=
    run_command r level s
  unfold Completes
  rw [hrun]
  rcases c.apply_cases s.disk with ⟨d', happly, hwrite⟩ | ⟨result, happly, hfailed⟩
  · exact .inl ⟨d', by rw [happly], hwrite⟩
  · exact .inr ⟨result, by rw [happly], hfailed⟩

theorem readText_of_success {r : Restriction} {level : Value}
    (h : Completes (command (r.command level)) s .success s') :
    s'.disk.readText s.controller.path =
      .ok (Restriction.text (s.controller.ask r level.truth).asks) := by
  rcases command_cases r level s with ⟨d', hsuccess, hwrite⟩ | ⟨result, hfailure, hfailed⟩
  · obtain rfl := h.unique hsuccess
    rw [Controller.path_ask] at hwrite
    exact Disk.readText_of_writeText hwrite
  · cases h.symm.trans hfailure
    exact absurd rfl (hfailed.ne nofun)

theorem eq_of_error {r : Restriction} {level : Value}
    (h : Completes (command (r.command level)) s .error s') :
    s' = { s with controller := s.controller.ask r level.truth } := by
  rcases command_cases r level s with ⟨d', hsuccess, -⟩ | ⟨result, hfailure, -⟩
  · cases h.symm.trans hsuccess
  · exact congrArg Prod.snd (h.symm.trans hfailure)

theorem exists_success (haccepts : s.disk.Accepts s.controller.path) (r : Restriction)
    (level : Value) :
    let c := s.controller.ask r level.truth
    ∃ d', Completes (command (r.command level)) s .success { s with controller := c, disk := d' } ∧
      s.disk.writeText s.controller.path (Restriction.text c.asks) = .ok d' := by
  intro c
  obtain ⟨d', hwrite, -⟩ := Disk.exists_write haccepts.opens haccepts.room
    (Restriction.text c.asks).toUTF8
  have happly : c.apply s.disk = (.ok .success, d') :=
    Controller.apply_of_writeText ((s.controller.path_ask r level.truth).symm ▸ hwrite)
  refine ⟨d', ?_, hwrite⟩
  rw [Completes, run_command, happly]

/-! ### Histories -/

/-- What happens to a controller. -/
inductive Event where
  | command (r : Restriction) (level : Value)
  /-- a command of a client, who may be an administrator at that time or not -/
  | request (r : Restriction) (isAdmin : Bool) (level : Value)
  /-- the disk changes -/
  | files (change : Disk → Disk)

/-- What an event does, with the code that the caller gets, if there is one. -/
def Event.act (poller : Option (Value → M σ Unit)) : Event → M σ (Option ReturnCode)
  | command r level => some <$> Controlled.command (r.command level)
  | request r isAdmin level => some <$> r.request poller isAdmin level
  | files change => do
    modify fun s => { s with disk := change s.disk }
    return none

/-- The command that gets to the controller. -/
def Event.order? : Event → Option (Restriction × Value)
  | command r level => some (r, level)
  | request r isAdmin level =>
    if Client.isLevel level && isAdmin then some (r, level) else none
  | files _ => none

/-- The restriction was asked for last. -/
def asked (r : Restriction) : List Event → Bool
  | [] => false
  | e :: past =>
    match e.order? with
    | some (r', level) => if r' = r then level.truth else asked r past
    | none => asked r past

/-- The caller is told of success. -/
def succeeds (poller : Option (Value → M σ Unit)) (s : Controlled σ) (e : Event) : Bool :=
  match ((e.act poller).run.run s).1 with
  | .ok (some .success) => true
  | _ => false

/-- The restriction was asked for last with success. -/
def granted (poller : Option (Value → M σ Unit)) (s : Controlled σ) (r : Restriction) :
    List Event → Bool
  | [] => false
  | e :: past =>
    match e.order? with
    | some (r', level) =>
      if r' = r && succeeds poller (afterAll (Event.act poller) s past) e then level.truth
      else granted poller s r past
    | none => granted poller s r past

theorem order?_request (r : Restriction) (isAdmin : Bool) (level : Value) :
    (Event.request r isAdmin level).order? =
      if Client.isLevel level && isAdmin then some (r, level) else none := rfl

/-- **A client refuses a request, or passes it on as a command.** -/
theorem act_request (r : Restriction) (isAdmin : Bool) (level : Value) :
    (Event.request r isAdmin level).act poller =
      if Client.isLevel level = false then pure (some .badArgument)
      else if isAdmin = false then pure (some .notPrivileged)
      else (Event.command r level).act poller := by
  change some <$> r.request poller isAdmin level = _
  rw [request_eq]
  split
  · exact map_pure _ _
  · split
    · exact map_pure _ _
    · rfl

theorem act_of_order {e : Event} {r : Restriction} {level : Value}
    (h : e.order? = some (r, level)) : e.act poller = (Event.command r level).act poller := by
  cases e with
  | command => cases h; rfl
  | files => cases h
  | request r isAdmin level =>
    rw [order?_request] at h
    split at h
    · rename_i hpassed
      obtain ⟨hlevel, hadmin⟩ := Bool.and_eq_true_iff.1 hpassed
      cases h
      rw [act_request, if_neg (by rw [hlevel]; decide), if_neg (by rw [hadmin]; decide)]
    · cases h

theorem controller_of_noOrder {e : Event} (h : e.order? = none) :
    (after (e.act poller) s).controller = s.controller := by
  cases e with
  | command => cases h
  | files => rfl
  | request r isAdmin level =>
    rw [order?_request] at h
    rw [act_request]
    split
    · rfl
    · rename_i hlevel
      have hadmin : isAdmin = false := by
        cases isAdmin with
        | false => rfl
        | true => rw [eq_true_of_ne_false hlevel] at h; cases h
      rw [if_pos hadmin]
      rfl

theorem controller_act (e : Event) (s : Controlled σ) :
    (after (e.act poller) s).controller = match e.order? with
      | some (r, level) => s.controller.ask r level.truth
      | none => s.controller := by
  cases horder : e.order? with
  | none => exact controller_of_noOrder horder
  | some order =>
    obtain ⟨r, level⟩ := order
    rw [act_of_order horder, Event.act, after, run_map, run_command]

variable (poller) in
/-- **The controller remembers what was asked for last**, whatever came of it. -/
theorem controller_afterAll (hnew : s.controller.asks = fun _ => false) (past : List Event) :
    (afterAll (Event.act poller) s past).controller.path = s.controller.path ∧
      (afterAll (Event.act poller) s past).controller.asks = (asked · past) := by
  induction past with
  | nil => exact ⟨rfl, hnew⟩
  | cons e past ih =>
    obtain ⟨hpath, hasks⟩ := ih
    rw [afterAll, controller_act]
    unfold asked
    cases e.order? with
    | none => exact ⟨hpath, hasks⟩
    | some order =>
      obtain ⟨r, level⟩ := order
      refine ⟨(Controller.path_ask r _).trans hpath, funext fun r' => ?_⟩
      rw [Controller.asks_ask, hasks]

/-! ### Commands that fail -/

theorem completes_act_command {r : Restriction} {level : Value} {code : ReturnCode} :
    Completes ((Event.command r level).act poller) s (some code) s' ↔
      Completes (command (r.command level)) s code s' := by
  rw [Event.act, completes_map]
  constructor
  · rintro ⟨code', hcompletes, hcode⟩
    exact Option.some.inj hcode ▸ hcompletes
  · exact fun h => ⟨code, h, rfl⟩

variable (poller) in
theorem readText_lifted {d : Disk} (haccepts : d.Accepts s.controller.path) (r : Restriction) :
    (afterAll (Event.act poller) s [.command r (.int 0), .files fun _ => d]).disk.readText
      s.controller.path = .ok (Restriction.text (s.controller.ask r false).asks) := by
  obtain ⟨d', hsuccess, -⟩ :=
    exists_success (s := { s with disk := d }) haccepts r (.int 0)
  have hafter : afterAll (Event.act poller) s [.command r (.int 0), .files fun _ => d] = _ :=
    (completes_act_command.2 hsuccess).after_eq
  rw [hafter]
  exact readText_of_success hsuccess

variable (poller) in
/-- **What is remembered shows**, as soon as the file can be written and the other restriction is
lifted. -/
theorem disk_afterAll_iff {d : Disk} (haccepts : d.Accepts s.controller.path) (r : Restriction)
    (on : Bool) :
    let t := { s with controller := s.controller.ask r on }
    (∀ later, (afterAll (Event.act poller) t later).disk =
      (afterAll (Event.act poller) s later).disk) ↔ on = s.controller.asks r := by
  intro t
  constructor
  · intro h
    have hlater := h [.command r.other (.int 0), .files fun _ => d]
    have hpath : t.controller.path = s.controller.path := Controller.path_ask r on
    have hread := readText_lifted poller (hpath.symm ▸ haccepts) r.other
    rw [hlater, hpath, readText_lifted poller haccepts r.other] at hread
    obtain ⟨hinflow, hcharging⟩ := Restriction.text_eq_iff.1 (Except.ok.inj hread)
    cases r with
    | inflow => exact hinflow.symm
    | charging => exact (hcharging.resolve_left nofun).symm
  · rintro rfl later
    have hsame : t = s := by rw [show t = { s with controller := _ } from rfl, Controller.ask_self]
    rw [hsame]

variable (poller) in
/-- **A command that fails has no effect iff it asked for nothing new.**  After a command that succeeded
the file holds the behaviour that was asked for last, by commands that succeeded or not, and so the one
that was asked for last with success iff the two agree.  A command that failed leaves the disk as it
was, and all that is written later is what is written without it iff the restriction had been asked
for as it was by then. -/
theorem failed_command_iff {s : Controlled σ} {d : Disk}
    (hnew : s.controller.asks = fun _ => false) (haccepts : d.Accepts s.controller.path)
    (past : List Event) (r : Restriction) (level : Value) :
    let now := afterAll (Event.act poller) s past
    let e := Event.command r level
    (∀ s', Completes (e.act poller) now (some .success) s' →
      s'.disk.readText s.controller.path = .ok (Restriction.text (asked · (e :: past))) ∧
      (s'.disk.readText s.controller.path =
          .ok (Restriction.text (granted poller s · (e :: past))) ↔
        asked .inflow (e :: past) = granted poller s .inflow (e :: past) ∧
          (asked .inflow (e :: past) = true ∨
            asked .charging (e :: past) = granted poller s .charging (e :: past)))) ∧
    ∀ s', Completes (e.act poller) now (some .error) s' →
      s'.disk = now.disk ∧
      ((∀ later, (afterAll (Event.act poller) s' later).disk =
        (afterAll (Event.act poller) now later).disk) ↔ level.truth = asked r past) := by
  intro now e
  obtain ⟨hpath, hasks⟩ := controller_afterAll poller hnew past
  constructor
  · intro s' hs'
    have hlast := (controller_afterAll poller hnew (e :: past)).2
    rw [afterAll, controller_act] at hlast
    have hread := readText_of_success (completes_act_command.1 hs')
    rw [hpath, show (now.controller.ask r level.truth).asks = _ from hlast] at hread
    refine ⟨hread, ?_⟩
    rw [hread, Except.ok.injEq, Restriction.text_eq_iff]
  · intro s' hs'
    obtain rfl := eq_of_error (completes_act_command.1 hs')
    refine ⟨rfl, ?_⟩
    have hlater := disk_afterAll_iff poller (hpath.symm ▸ haccepts) r level.truth
    rw [hasks] at hlater
    exact hlater

/-- The controller's file, in the directory that the system runs in. -/
def behaviourFile : Path where
  root := ""
  names := ["charge_behaviour"]

/-- A new controller on a disk that is out of space. -/
def outOfSpace : Controlled Unit where
  controller := { path := behaviourFile }
  disk := { full := true }
  rest := ()

/-- A client inhibits charging, which fails; then the inflow is permitted, which fails as well and shows in
nothing later. -/
theorem failed_command_iff_outOfSpace :
    let now := afterAll (Event.act none) outOfSpace [.request .charging true (.int 1)]
    let e := Event.command .inflow (.int 0)
    (outOfSpace.controller.asks = fun _ => false) ∧ Disk.Accepts {} behaviourFile ∧
      (∃ s', Completes (e.act none) now (some .error) s') ∧
      (after (e.act none) now).disk = now.disk ∧
      ∀ later, (afterAll (Event.act none) (after (e.act none) now) later).disk =
        (afterAll (Event.act none) now later).disk := by
  intro now e
  have hnew : outOfSpace.controller.asks = fun _ => false := funext fun r => by cases r <;> rfl
  have haccepts : Disk.Accepts {} behaviourFile := ⟨⟨["charge_behaviour"], rfl, nofun⟩, rfl⟩
  have hfailed : Completes (e.act none) now (some .error) (after (e.act none) now) :=
    completes_of_outcome (by decide +kernel)
  obtain ⟨hsame, hlater⟩ := (failed_command_iff none hnew haccepts
    [.request .charging true (.int 1)] .inflow (.int 0)).2 _ hfailed
  exact ⟨hnew, haccepts, ⟨_, hfailed⟩, hsame, hlater.2 (by decide +kernel)⟩

/-- A command to disable the inflow fails, and comes into force with the next one, which inhibits charging
when there is space again. -/
theorem failed_command_in_force :
    let failed := Event.command .inflow (.int 1)
    let space := Event.files fun _ => {}
    let e := Event.command .charging (.int 1)
    let now := afterAll (Event.act none) outOfSpace [space, failed]
    (∃ s', Completes (failed.act none) outOfSpace (some .error) s') ∧
      (∃ s', Completes (e.act none) now (some .success) s' ∧
        s'.disk.readText behaviourFile = .ok "force-discharge\n") ∧
      Restriction.text (granted none outOfSpace · [e, space, failed]) = "inhibit-charge\n" := by
  refine ⟨⟨_, completes_of_outcome (by decide +kernel)⟩,
    ⟨_, completes_of_outcome (by decide +kernel), eq_ok_of_toOption (by decide +kernel)⟩, ?_⟩
  decide +kernel

end Controlled

end BatteryMonitor
