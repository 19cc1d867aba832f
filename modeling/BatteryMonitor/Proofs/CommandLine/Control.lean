import BatteryMonitor.CommandLine.Control
import BatteryMonitor.Proofs.ChargeControl.Controller
import BatteryMonitor.Proofs.Json.Integer

/-!
# The control program against a controller that stays

The control program makes a new controller in every run, and so it knows of nothing that was ordered
before.  What it leaves in the file is its one order by itself (`Order.alone`), where a controller that
stays goes on with what it was asked for.

* `CommandLine.Control.asks_plain` : every order can be given on a command line;
* `CommandLine.Control.completes_run` : a run of the program succeeds where the file can be written;
* `CommandLine.Control.runs_agree_iff` : after a row of orders the file is the same as with a
  controller that stays iff the last order alone is what the controller is asked for.
-/

namespace BatteryMonitor

/-! ### Orders -/

/-- A restriction that is to be put or lifted. -/
structure Order where
  restriction : Restriction
  on : Bool

namespace Order

variable (o : Order)

/-- The level that asks for it. -/
def level : Value := .int (if o.on then 1 else 0)

/-- What it is called on a command line. -/
def name : String :=
  match o.restriction with
  | .inflow => CommandLine.Control.inflow
  | .charging => CommandLine.Control.inhibit

/-- The level on a command line. -/
def digit : String := if o.on then "1" else "0"

/-- What is in force if nothing else is ordered. -/
def alone (r : Restriction) : Bool := r = o.restriction && o.on

theorem isLevel_level : Client.isLevel o.level = true := by
  unfold level
  cases o.on <;> rfl

theorem truth_level : o.level.truth = o.on := by
  unfold level
  cases o.on <;> rfl

theorem printed_level : o.level.printed = .ok o.digit := by
  have hprinted (n : Int) (hn : n.natAbs ≤ Nat.pow 2 0) :
      (Value.int n).printed = .ok (String.ofList (Decimal.signedDigits n)) := by
    rw [Value.printed, Value.display, Value.inspect, displayInteger,
      if_pos (Decimal.withinLimit_of_le (by decide) hn)]
    · rfl
    · exact nofun
  unfold level digit
  cases o.on with
  | true => exact (hprinted 1 (by decide)).trans (congrArg Except.ok (by decide +kernel))
  | false => exact (hprinted 0 (by decide)).trans (congrArg Except.ok (by decide +kernel))

theorem asks_ask_new (p : Path) :
    (({ path := p } : Controller).ask o.restriction o.on).asks = o.alone := by
  obtain ⟨restriction, on⟩ := o
  funext r
  cases restriction <;> cases r <;> cases on <;> rfl

/-- **An order alone amounts to the same as with what had been asked for before** iff there is no
inflow then, or the other restriction had not been asked for. -/
theorem text_alone_iff (asks : Restriction → Bool) :
    Restriction.text o.alone =
        Restriction.text (fun r => if o.restriction = r then o.on else asks r) ↔
      o.restriction = .inflow ∧ o.on = true ∨ asks o.restriction.other = false := by
  rw [Restriction.text_eq_iff]
  obtain ⟨restriction, on⟩ := o
  cases restriction with
  | inflow =>
    generalize hcharging : asks .charging = charging
    cases on <;> cases charging <;> simp [alone, Restriction.other, hcharging]
  | charging =>
    generalize hinflow : asks .inflow = inflow
    cases on <;> cases inflow <;> simp [alone, Restriction.other, hinflow]

end Order

namespace CommandLine

/-! ### Arguments -/

section Arguments

variable {f : Form} {fuel : Nat} {p p' : Parsed} {asked stillAsked : List Word}
  {tokens rest rest' : List Token}

theorem takeAll_word {s : String}
    (h : takeWords p asked (.word s :: rest) = .ok (p', stillAsked, rest'))
    (hshorter : rest'.length < rest.length + 1) :
    takeAll f (fuel + 1) p asked (.word s :: rest) = takeAll f fuel p' stillAsked rest' := by
  rw [takeAll]
  · dsimp only
    rw [h]
    exact if_pos hshorter
  · exact nofun
  · exact nofun
  · exact nofun

theorem takeAll_switch {mention : Mention} {taken : List (Switch × Value)}
    (h : takeSwitch f mention rest = .ok (taken, rest')) (hnote : note p taken = .ok p') :
    takeAll f (fuel + 1) p asked (.switch mention :: rest) = takeAll f fuel p' asked rest' := by
  rw [takeAll, h]
  change (note p taken >>= fun p' => takeAll f fuel p' asked rest') = _
  rw [hnote]
  rfl

theorem parse_of_takeAll {arguments : List String} (htokens : f.tokens arguments = .ok tokens)
    (htake : takeAll f (tokens.length + 1) {} f.words tokens = .ok (p, []))
    (hwanted : p.unwanted = []) : f.parse arguments = .ok p := by
  unfold Form.parse
  rw [htokens]
  change (takeAll f (tokens.length + 1) {} f.words tokens >>= _) = _
  rw [htake]
  change (if (!p.unwanted.isEmpty) = true then _ else _) = _
  rw [hwanted]
  rfl

end Arguments

namespace Control

open BatteryMonitor.Effect

/-! ### Orders on a command line -/

/-- An order, and the arguments of a run of the program that ask for it. -/
structure Errand where
  order : Order
  arguments : List String

namespace Errand

/-- The arguments ask for what is ordered, with the file at the path. -/
def Asks (site : Site) (d : Disk) (p : Path) (e : Errand) : Prop :=
  ∃ parsed, form.parse e.arguments = .ok parsed ∧ controlFile site d parsed = .ok p ∧
    parsed.word "command" = .text e.order.name ∧ parsed.word "level" = e.order.level

/-- An order in plain words, with the name of a file. -/
def plain (o : Order) (file : String) : Errand where
  order := o
  arguments := [o.name, o.digit, "--path", file]

/-- A run of the program by the administrator. -/
def run (site : Site) (e : Errand) : BatteryMonitor.Effect Disk Outcome :=
  modifyGet fun d => Control.run site d true e.arguments

/-- The order given to a controller that stays, by way of a client. -/
def event (e : Errand) : Controlled.Event :=
  .request e.order.restriction true e.order.level

end Errand

variable {site : Site} {d : Disk} {p : Path} {o : Order} {e : Errand} {file : String}

/-- The switch that names the file. -/
def pathSwitch : Switch := ⟨["--path"], .takeValue⟩

/-- What the program reads from an order in plain words. -/
def plainParsed (o : Order) (file : String) : Parsed where
  switches := [(pathSwitch, .text file)]
  words := [("command", .text o.name), ("level", o.level)]

theorem tokens_plain (hfile : form.classify file = .ok (.word file)) (hne : file ≠ "--") :
    form.tokens (Errand.plain o file).arguments =
      .ok [.word o.name, .word o.digit, .switch ⟨"--path", pathSwitch, none⟩, .word file] := by
  have hname : form.classify o.name = .ok (.word o.name) ∧ o.name ≠ "--" := by
    unfold Order.name
    cases o.restriction <;> exact ⟨rfl, by decide⟩
  have hdigit : form.classify o.digit = .ok (.word o.digit) ∧ o.digit ≠ "--" := by
    unfold Order.digit
    cases o.on <;> exact ⟨rfl, by decide⟩
  have hpath : form.classify "--path" = .ok (.switch ⟨"--path", pathSwitch, none⟩) := rfl
  simp only [Errand.plain, Form.tokens, if_neg hname.2, if_neg hdigit.2, if_neg hne, hname.1,
    hdigit.1, hfile, hpath, if_neg (show "--path" ≠ "--" by decide)]
  rfl

theorem parse_plain (hfile : form.classify file = .ok (.word file)) (hne : file ≠ "--") :
    form.parse (Errand.plain o file).arguments = .ok (plainParsed o file) := by
  have hvalue : switchValue file = .ok (.text file) := by
    unfold switchValue argumentValue
    rw [decide_eq_false hne]
    rfl
  have hwords : takeWords {} form.words
      [.word o.name, .word o.digit, .switch ⟨"--path", pathSwitch, none⟩, .word file] =
      .ok ({ words := (plainParsed o file).words }, [],
        [.switch ⟨"--path", pathSwitch, none⟩, .word file]) := by
    unfold Order.name Order.digit plainParsed Order.level Order.name
    cases o.restriction <;> cases o.on <;> rfl
  have hswitch : takeSwitch form ⟨"--path", pathSwitch, none⟩ [.word file] =
      .ok ([(pathSwitch, .text file)], []) := by
    change (do return ([(pathSwitch, ← switchValue file)], ([] : List Token))) = _
    rw [hvalue]
    rfl
  refine parse_of_takeAll (tokens_plain hfile hne) ?_ rfl
  exact (takeAll_word hwords (by simp)).trans (takeAll_switch hswitch rfl)

/-- **Every order can be given in plain words**, for every file whose name is not taken for a
switch. -/
theorem asks_plain (o : Order) {c : Char} {cs : List Char} (hfile : file.toList = c :: cs)
    (hc : c ≠ '-') : (Errand.plain o file).Asks site d (Path.ofString file) := by
  have hclass : form.classify file = .ok (.word file) := by
    unfold Form.classify
    rw [hfile]
    split
    · rename_i heq
      exact absurd (List.head_eq_of_cons_eq heq) hc
    · rfl
  have hne : file ≠ "--" := by
    rintro rfl
    exact hc (List.head_eq_of_cons_eq hfile).symm
  have hnamed : (Value.text file).truth = true := by
    refine bne_iff_ne.2 ?_
    rintro ⟨⟩
    cases hfile
  exact ⟨plainParsed o file, parse_plain hclass hne, if_pos hnamed, rfl, rfl⟩

/-! ### One run of the program -/

/-- What the program says when it is done. -/
def done (o : Order) : Outcome :=
  { output := o.name ++ " " ++ o.digit ++ ": ok\n" }

/-- A new controller. -/
def fresh (p : Path) (d : Disk) : Controlled Unit where
  controller := { path := p }
  disk := d
  rest := ()

theorem command_order (o : Order) (p : Path) (d : Disk) :
    command true (.text o.name) o.level { path := p } d =
      let out := (Controlled.command (o.restriction.command o.level)).run.run (fresh p d)
      (out.1, out.2.disk) := by
  have hrequest : o.restriction.request (none : Option (Value → Controlled.M Unit Unit)) true
      o.level = Controlled.command (o.restriction.command o.level) := by
    rw [Controlled.request_eq, if_neg (by rw [o.isLevel_level]; decide), if_neg (by decide)]
  rw [← hrequest]
  unfold Order.name
  cases o.restriction <;> rfl

/-- **A run of the program succeeds where the file can be written**, and writes its order alone. -/
theorem completes_run (hasks : e.Asks site d p) (haccepts : d.Accepts p) :
    ∃ d', Completes (e.run site) d (done e.order) d' ∧
      d.writeText p (Restriction.text e.order.alone) = .ok d' := by
  obtain ⟨parsed, hparse, hfile, hname, hlevel⟩ := hasks
  obtain ⟨d', hsuccess, hwrite⟩ := Controlled.exists_success (s := fresh p d) haccepts
    e.order.restriction e.order.level
  have hcommand : command true (.text e.order.name) e.order.level { path := p } d =
      (.ok .success, d') := by
    rw [command_order, show (Controlled.command _).run.run _ = _ from hsuccess]
  have hperform : perform site d true parsed = (done e.order, d') := by
    unfold perform
    rw [hfile]
    dsimp only
    rw [hname, hlevel, hcommand, e.order.printed_level]
    unfold done Order.name Order.digit
    cases e.order.restriction <;> cases e.order.on <;> rfl
  have hrun : Control.run site d true e.arguments = (done e.order, d') := by
    rw [Control.run, hparse]
    exact hperform
  have halone : ((fresh p d).controller.ask e.order.restriction e.order.level.truth).asks =
      e.order.alone := by
    rw [e.order.truth_level]
    exact e.order.asks_ask_new p
  have heffect : (e.run site).run.run d = (.ok (Control.run site d true e.arguments).1,
      (Control.run site d true e.arguments).2) := rfl
  refine ⟨d', ?_, halone ▸ hwrite⟩
  rw [Completes, heffect, hrun]

/-! ### Many runs -/

section Histories

variable {past : List Errand}

theorem accepts_runs (haccepts : d.Accepts p)
    (hasks : ∀ e earlier, e :: earlier <:+ past →
      e.Asks site (afterAll (Errand.run site) d earlier) p) :
    (afterAll (Errand.run site) d past).Accepts p := by
  induction past with
  | nil => exact haccepts
  | cons e past ih =>
    obtain ⟨he, hpast⟩ := forall_suffix_cons.1 hasks
    obtain ⟨d', hrun, hwrite⟩ := completes_run he (ih hpast)
    rw [afterAll, hrun.after_eq]
    exact (ih hpast).of_alike (Disk.alike_write hwrite).2.2

theorem completes_event (e : Errand) {s : Controlled Unit} (hpath : s.controller.path = p)
    (haccepts : s.disk.Accepts p) :
    ∃ d', Completes (e.event.act none) s (some .success)
        { s with controller := s.controller.ask e.order.restriction e.order.on, disk := d' } ∧
      s.disk.writeText p
        (Restriction.text (s.controller.ask e.order.restriction e.order.on).asks) = .ok d' := by
  subst hpath
  obtain ⟨d', hsuccess, hwrite⟩ :=
    Controlled.exists_success haccepts e.order.restriction e.order.level
  rw [e.order.truth_level] at hsuccess hwrite
  have horder : e.event.order? = some (e.order.restriction, e.order.level) :=
    if_pos (by rw [e.order.isLevel_level]; rfl)
  refine ⟨d', ?_, hwrite⟩
  rw [Controlled.act_of_order horder, Controlled.completes_act_command]
  exact hsuccess

theorem controller_events (p : Path) (d : Disk) (past : List Errand) :
    let s := afterAll (Controlled.Event.act none) (fresh p d) (past.map Errand.event)
    s.controller.path = p ∧ s.controller.asks = (Controlled.asked · (past.map Errand.event)) :=
  Controlled.controller_afterAll none (s := fresh p d) (funext fun r => by cases r <;> rfl) _

theorem accepts_events (haccepts : d.Accepts p) (past : List Errand) :
    (afterAll (Controlled.Event.act none) (fresh p d) (past.map Errand.event)).disk.Accepts p := by
  induction past with
  | nil => exact haccepts
  | cons e past ih =>
    obtain ⟨d', hsuccess, hwrite⟩ := completes_event e (controller_events p d past).1 ih
    rw [List.map_cons, afterAll, hsuccess.after_eq]
    exact ih.of_alike (Disk.alike_write hwrite).2.2

/-- **Runs of the program and a controller that stays agree iff the last order is all there is.**  After
every row of orders both succeed with the last one, and the program leaves this order alone in the
file.  A controller that stays leaves the same there iff the order is that there be no inflow, or the
other restriction was lifted by then, or never ordered. -/
theorem runs_agree_iff (haccepts : d.Accepts p)
    (hasks : ∀ e' earlier, e' :: earlier <:+ e :: past →
      e'.Asks site (afterAll (Errand.run site) d earlier) p) :
    ∃ d' s', Completes (e.run site) (afterAll (Errand.run site) d past) (done e.order) d' ∧
      Completes (e.event.act none)
        (afterAll (Controlled.Event.act none) (fresh p d) (past.map Errand.event))
        (some .success) s' ∧
      d'.readText p = .ok (Restriction.text e.order.alone) ∧
      (d'.readText p = s'.disk.readText p ↔
        e.order.restriction = .inflow ∧ e.order.on = true ∨
          Controlled.asked e.order.restriction.other (past.map Errand.event) = false) := by
  obtain ⟨he, hpast⟩ := forall_suffix_cons.1 hasks
  obtain ⟨d', hrun, hwrite⟩ := completes_run he (accepts_runs haccepts hpast)
  obtain ⟨hpath, hasked⟩ := controller_events p d past
  obtain ⟨d'', hsuccess, hwritten⟩ := completes_event e hpath (accepts_events haccepts past)
  have hasks : Controller.asks (Controller.ask _ e.order.restriction e.order.on) = _ :=
    funext fun r => (Controller.asks_ask _ r _).trans (by rw [hasked])
  refine ⟨d', _, hrun, hsuccess, Disk.readText_of_writeText hwrite, ?_⟩
  dsimp only
  rw [Disk.readText_of_writeText hwrite, Disk.readText_of_writeText hwritten, Except.ok.injEq,
    hasks]
  exact e.order.text_alone_iff _

end Histories

/-- Files in the directory that the system runs in. -/
def localSite : Site where
  settingsFile := { root := "", names := ["settings.json"] }
  stateFile := "state.json"
  pidFile := { root := "", names := ["daemon.pid"] }

/-- Charging is inhibited. -/
def inhibitCharging : Errand := .plain ⟨.charging, true⟩ "charge_behaviour"

/-- The inflow is permitted. -/
def permitInflow : Errand := .plain ⟨.inflow, false⟩ "charge_behaviour"

/-- There is to be no inflow, as other arguments say. -/
def noInflow : Errand where
  order := ⟨.inflow, true⟩
  arguments := ["--pa", "./charge_behaviour", "inflow", "+01"]

/-- Charging is inhibited, and then there is to be no inflow: both leave the same file. -/
theorem runs_agree_iff_noInflow :
    let p := Controlled.behaviourFile
    Disk.Accepts {} p ∧
      (∀ e earlier, e :: earlier <:+ [noInflow, inhibitCharging] →
        e.Asks localSite (afterAll (Errand.run localSite) {} earlier) p) ∧
      ∃ d' s', Completes (noInflow.run localSite)
          (afterAll (Errand.run localSite) {} [inhibitCharging]) (done noInflow.order) d' ∧
        Completes (noInflow.event.act none)
          (afterAll (Controlled.Event.act none) (fresh p {}) [inhibitCharging.event])
          (some .success) s' ∧
        d'.readText p = s'.disk.readText p := by
  intro p
  have haccepts : Disk.Accepts {} p := ⟨⟨["charge_behaviour"], rfl, nofun⟩, rfl⟩
  have hplain : inhibitCharging.Asks localSite {} (Path.ofString "charge_behaviour") :=
    asks_plain _ (c := 'c') rfl (by decide)
  have hasks : ∀ e earlier, e :: earlier <:+ [noInflow, inhibitCharging] →
      e.Asks localSite (afterAll (Errand.run localSite) {} earlier) p := by
    simp only [forall_suffix_cons]
    exact ⟨⟨plainParsed noInflow.order "./charge_behaviour", rfl, rfl, rfl, rfl⟩, hplain,
      forall_suffix_nil⟩
  obtain ⟨d', s', hrun, hevent, -, hagree⟩ := runs_agree_iff haccepts hasks
  exact ⟨haccepts, hasks, d', s', hrun, hevent, hagree.2 (.inl ⟨rfl, rfl⟩)⟩

/-- Charging is inhibited and then the inflow permitted: a controller that stays goes on inhibiting it,
and the program does not. -/
theorem lifted_with_other :
    let p := Controlled.behaviourFile
    (∃ d', Completes (permitInflow.run localSite)
        (afterAll (Errand.run localSite) {} [inhibitCharging]) (done permitInflow.order) d' ∧
      d'.readText p = .ok "auto\n") ∧
    ∃ s', Completes (permitInflow.event.act none)
        (afterAll (Controlled.Event.act none) (fresh p {}) [inhibitCharging.event])
        (some .success) s' ∧
      s'.disk.readText p = .ok "inhibit-charge\n" := by
  intro p
  exact ⟨⟨_, completes_of_outcome (by decide +kernel), eq_ok_of_toOption (by decide +kernel)⟩,
    ⟨_, completes_of_outcome (by decide +kernel), eq_ok_of_toOption (by decide +kernel)⟩⟩

end Control

end CommandLine

end BatteryMonitor
