import BatteryMonitor.Proofs.CommandLine.Control
import BatteryMonitor.Proofs.Daemon.Minding
import BatteryMonitor.Proofs.Settings
import BatteryMonitor.Proofs.Telemetry.SnapshotFile

/-!
# The pid file is given back

The service program takes the pid file as the last step of its preparation, and gives it back when its
daemon ends.  In between the daemon minds the file, and as long as others leave it alone it names the
process, unless the settings lead the state file to its place.  A file that names no process is not removed.

* `CommandLine.Service.exists_prepare`, `CommandLine.Service.provides_of_prepare` : the file is taken iff
  there is all that the program needs (`CommandLine.Machine.Provides`);
* `CommandLine.Service.Holds.start`, `CommandLine.Service.Holds.turn` : neither the start of the daemon nor
  any turn of its loop takes away what it minds;
* `CommandLine.Service.released_finish` : at the end the file is removed, unless records are in its place;
* `CommandLine.Service.gives_back` : what is left of the file by any run of the program, also by one that
  ends with a fault out of its preparation, its start or its loop (`CommandLine.Service.Ends`);
* `CommandLine.Service.left_to_records` : where the state file is the pid file, records are left there.
-/

namespace BatteryMonitor

open Effect

/-! ### Preparing -/

namespace CommandLine

/-- All that the program needs is there: nobody holds the pid file, the settings can be read and name a state
file, there is a source of readings, and the state file can be read. -/
structure Machine.Provides (m : Machine) (parsed : Parsed) (stateFile : Text) : Prop where
  free : PidFile.owner m.processes m.disk m.site.pidFile = .ok none
  source : ∃ settings source,
    Service.loadSettings m.site m.disk (parsed.switch? "--config") = .ok settings ∧
      settings.stateFile = .text stateFile ∧
      (Service.openSource m settings (parsed.switch? "--fake")).1 = .ok source
  store : ∃ store, Store.onFile m.disk (.ofText stateFile) = .ok store

namespace Service

variable {m : Machine} {parsed : Parsed} {arguments : List String} {s : Service} {P : Store → Prop}

/-- The service is that of the machine, and its store has the property. -/
structure Holds (P : Store → Prop) (m : Machine) (s : Service) : Prop where
  site : s.site = m.site
  processes : s.processes = m.processes
  store : P s.daemon.monitor.store

/-- The store minds the pid file, in which the process is named. -/
def Guards (m : Machine) (stateFile : Text) : Store → Prop :=
  Store.Minds m.site.pidFile (.ofText stateFile) m.disk.here
    (String.ofList (Decimal.signedDigits m.processes.own)).toUTF8

/-- The service that takes the pid file, on the disk on which it is written. -/
def taking (m : Machine) (settings : Settings) (named : Option Value) (source : Source)
    (stateFile : Text) (store : Store) (disk : Disk) : Service where
  daemon := Daemon.create source { store with disk } settings.pollInterval settings.wakeResyncDelay
    m.bus {}
  site := m.site
  processes := m.processes
  settingsFile := named
  outcome := greeting m.processes.own stateFile

theorem take_eq {settings : Settings} {named : Option Value} {source : Source} {stateFile : Text}
    {store : Store} {disk : Disk}
    (hfree : PidFile.owner m.processes m.disk m.site.pidFile = .ok none)
    (hfile : settings.stateFile = .text stateFile)
    (hstore : Store.onFile m.disk (.ofText stateFile) = .ok store)
    (hwrite : m.disk.writeText m.site.pidFile
      (String.ofList (Decimal.signedDigits m.processes.own)) = .ok disk) :
    take m settings named source = .ok (taking m settings named source stateFile store disk) := by
  have hacquire : PidFile.acquire m.processes m.disk m.site.pidFile = .ok (true, disk) :=
    bind_eq_ok.2 ⟨none, hfree, bind_eq_ok.2 ⟨disk, hwrite, rfl⟩⟩
  rw [take, hfile]
  dsimp only
  rw [hstore, hacquire]
  rfl

theorem prepare_eq {settings : Settings} {source : Source}
    (hfree : PidFile.owner m.processes m.disk m.site.pidFile = .ok none)
    (hsettings : loadSettings m.site m.disk (parsed.switch? "--config") = .ok settings)
    (hsource : (openSource m settings (parsed.switch? "--fake")).1 = .ok source) :
    (prepare m parsed).1 = take m settings (parsed.switch? "--config") source := by
  unfold prepare
  dsimp only
  rw [hfree, hsettings]
  dsimp only
  rw [hsource]

/-- **The pid file is taken where there is all that the program needs.** -/
theorem exists_prepare (haccepts : m.disk.Accepts m.site.pidFile) {stateFile : Text}
    (hprovides : m.Provides parsed stateFile) :
    ∃ s, (prepare m parsed).1 = .ok s ∧ s.Holds (Guards m stateFile) m ∧
      s.outcome = greeting m.processes.own stateFile ∧
      m.disk.writeText m.site.pidFile (String.ofList (Decimal.signedDigits m.processes.own)) =
        .ok s.disk := by
  obtain ⟨settings, source, hsettings, hfile, hsource⟩ := hprovides.source
  obtain ⟨store, hstore⟩ := hprovides.store
  obtain ⟨disk, hwrite, -⟩ := Disk.exists_write haccepts.opens haccepts.room
    (String.ofList (Decimal.signedDigits m.processes.own)).toUTF8
  refine ⟨_, (prepare_eq hprovides.free hsettings hsource).trans
    (take_eq hprovides.free hfile hstore hwrite), ⟨rfl, rfl, ?_⟩, rfl, hwrite⟩
  exact Store.minds_of_write hstore hwrite

theorem provides_of_prepare (h : (prepare m parsed).1 = .ok s) :
    ∃ stateFile, m.Provides parsed stateFile := by
  unfold prepare at h
  dsimp only at h
  split at h
  · cases h
  · cases h
  · rename_i howner
    split at h
    · cases h
    · rename_i settings hsettings
      split at h
      · cases h
      · cases h
      · rename_i source hsource
        unfold take at h
        split at h
        · rename_i stateFile hfile
          refine ⟨stateFile, howner, ⟨settings, source, hsettings, hfile, hsource⟩, ?_⟩
          cases hstore : Store.onFile m.disk (.ofText stateFile) with
          | ok store => exact ⟨store, rfl⟩
          | error fault =>
            rw [hstore] at h
            cases h
        · cases h

theorem ending_greeting (own : Int) (stateFile : Text) : (greeting own stateFile).ending =
    if stateFile.isTorn then .stopped .badValue else .finished 0 := by
  cases stateFile <;> rfl

/-! ### Running -/

end Service

/-- Whoever changes the disk then, the files keep the property of the store. -/
def Event.Respects (P : Store → Prop) : Event → Prop
  | .disk change => ∀ s, P s → P { s with disk := change s.disk }
  | .lapse _ | .sleep _ | .signal _ | .sensor _ => True

/-- Whoever changes the disk then leaves the file alone. -/
def Event.Spares (p : Path) : Event → Prop
  | .disk change => ∀ d, (change d).here = d.here ∧
      ∀ place content, d.Holds p place content → (change d).Holds p place content
  | .lapse _ | .sleep _ | .signal _ | .sensor _ => True

namespace Service

theorem respects_of_spares {e : Event} {stateFile : Text} (h : e.Spares m.site.pidFile) :
    e.Respects (Guards m stateFile) := by
  cases e with
  | disk change => exact fun s hs => hs.withDisk (h s.disk).1 fun bytes => (h s.disk).2 _ bytes
  | lapse | sleep | signal | sensor => exact trivial

/-- A turn of the service's loop, which may end after any of them. -/
inductive Turn where
  /-- the loop calls a source -/
  | call (id : Nat)
  /-- time passes -/
  | clock (now : Nat)
  | event (e : Event)

namespace Turn

/-- What a service does in a turn. -/
def act : Turn → M Unit
  | call id => onDaemon (modify (Daemon.Turn.called id))
  | clock now => onDaemon (modify (Daemon.Turn.atTime now))
  | event e => discard (handle e)

/-- Nobody else touches the file in the turn. -/
def Spares (p : Path) : Turn → Prop
  | event e => e.Spares p
  | call _ | clock _ => True

end Turn

namespace Holds

theorem onDaemon {α : Type} {act : StateM Daemon α} (hs : s.Holds P m)
    (hact : P (act.run s.daemon).2.monitor.store) : ((onDaemon act).run s).2.Holds P m :=
  ⟨hs.site, hs.processes, hact⟩

theorem started (hsite : s.site = m.site) (hprocesses : s.processes = m.processes)
    (h : P (after Daemon.start s.daemon).monitor.store) : (Service.start.run s).2.Holds P m := by
  have hstarted : ((Service.onDaemon Daemon.start.run).run s).2.Holds P m := ⟨hsite, hprocesses, h⟩
  unfold Service.start
  rw [Daemon.run_state_bind]
  split <;> exact hstarted

theorem start (hP : Store.Abiding P) (hs : s.Holds P m) : (Service.start.run s).2.Holds P m :=
  started hs.site hs.processes (hP.start s.daemon hs.store)

theorem deliver (hs : s.Holds P m) (signal : Signal) : ((deliver signal).run s).2.Holds P m := by
  have hrespond : Keeps (fun d => P d.monitor.store) (s.respond signal) := by
    cases signal with
    | hangUp => exact Store.Abiding.reload s.site s.settingsFile
    | terminate | interrupt => exact keeps_bind Store.Abiding.quit fun _ => keeps_pure _
  have hanswered : ((Service.onDaemon (Loop.guarded (s.respond signal))).run s).2.Holds P m :=
    hs.onDaemon (Store.Abiding.guarded hrespond hs.store)
  unfold Service.deliver
  rw [Daemon.run_state_bind]
  change ((if s.handled.contains signal = true then _ else pure ⟨⟩ : M Unit).run s).2.Holds P m
  split
  · rw [Daemon.run_state_bind]
    split <;> exact ⟨hanswered.site, hanswered.processes, hanswered.store⟩
  · exact hs

theorem handle (hP : Store.Abiding P) (hs : s.Holds P m) {e : Event} (he : e.Respects P) :
    ((handle e).run s).2.Holds P m := by
  cases e with
  | lapse ms => exact hs.onDaemon (hP.advance ms hs.store)
  | sleep going => exact hs.onDaemon (Store.Abiding.tellListeners going hs.store)
  | signal signal => exact hs.deliver signal
  | sensor sensor => exact ⟨hs.site, hs.processes, hs.store⟩
  | disk change => exact ⟨hs.site, hs.processes, he _ hs.store⟩

/-- **No turn takes the property away from the service.** -/
theorem turn (hP : Store.Abiding P) (hs : s.Holds P m) {t : Turn}
    (ht : ∀ e, t = .event e → e.Respects P) : (t.act.run s).2.Holds P m := by
  cases t with
  | call id => exact hs.onDaemon (hP.called id hs.store)
  | clock now => exact ⟨hs.site, hs.processes, hs.store⟩
  | event e => exact hs.handle hP (ht e rfl)

end Holds

/-! ### Runs -/

/-- The life of a service: it is started, something happens, and it ends, perhaps with a fault. -/
def lifetime (act : M Unit) (fault : Option Fault) : M Unit := do
  match ← start with
  | some fault => finish (some fault)
  | none =>
    act
    finish fault

/-- Runs the program, whose service lives like that. -/
def serve (m : Machine) (arguments : List String) (act : M Unit) (fault : Option Fault) :
    Outcome × Disk :=
  match form.parse arguments with
  | .error leave => (form.leave leave, m.disk)
  | .ok p =>
    match (prepare m p).1 with
    | .error outcome => (outcome, m.disk)
    | .ok s =>
      let s := if s.hasBegun then ((lifetime act fault).run s).2 else s
      (s.outcome, s.disk)

theorem run_eq_serve (m : Machine) (arguments : List String) (events : List Event) :
    run m arguments events = serve m arguments (follow (events ++ [.signal .terminate])) none :=
  rfl

theorem Holds.follow (hP : Store.Abiding P) : ∀ {events : List Event} {s : Service}, s.Holds P m →
    (∀ e ∈ events, e.Respects P) → ((follow events).run s).2.Holds P m := by
  intro events
  induction events with
  | nil => exact fun hs _ => hs
  | cons e events ih =>
    intro s hs hevents
    obtain ⟨he, hevents⟩ := List.forall_mem_cons.1 hevents
    unfold Service.follow
    rw [Daemon.run_state_bind]
    change ((if s.isRunning = true then _ else pure ⟨⟩ : M Unit).run s).2.Holds P m
    split
    · exact ih (hs.handle hP he) hevents
    · exact hs

theorem Holds.turns (hP : Store.Abiding P) : ∀ {turns : List Turn} {s : Service}, s.Holds P m →
    (∀ t ∈ turns, ∀ e, t = .event e → e.Respects P) → ((turns.forM Turn.act).run s).2.Holds P m := by
  intro turns
  induction turns with
  | nil => exact fun hs _ => hs
  | cons t turns ih =>
    intro s hs hturns
    obtain ⟨ht, hturns⟩ := List.forall_mem_cons.1 hturns
    exact ih (hs.turn hP ht) hturns

/-- **A service comes to its end with the property**, if it has it once it was started; the start may
have failed. -/
theorem Holds.exists_finish {act : M Unit} (hs : (Service.start.run s).2.Holds P m)
    (hact : ∀ s : Service, s.Holds P m → (act.run s).2.Holds P m) (fault : Option Fault) :
    ∃ ending s', s'.Holds P m ∧ (lifetime act fault).run s = (finish ending).run s' := by
  unfold lifetime
  rw [Daemon.run_state_bind]
  split
  · exact ⟨_, _, hs, rfl⟩
  · exact ⟨fault, _, hact _ hs, rfl⟩

/-! ### Ending -/

theorem disk_finish {disk : Disk} (fault : Option Fault)
    (h : PidFile.release s.processes s.disk s.site.pidFile = .ok disk) :
    ((finish fault).run s).2.disk = disk := by
  unfold finish
  rw [StateT.run_modify, h]
  rfl

theorem disk_finish_of_holdsObject {place : List String} (fault : Option Fault)
    (h : s.disk.HoldsObject s.site.pidFile place) : ((finish fault).run s).2.disk = s.disk :=
  disk_finish fault (PidFile.release_of_none (PidFile.holder?_of_holdsObject h))

/-- **At the end the file is removed**, unless it holds what the daemon put there. -/
theorem released_finish {stateFile : Text} (hs : s.Holds (Guards m stateFile) m)
    (hown : 0 < m.processes.own ∧ m.processes.own ≤ 2147483647) (fault : Option Fault) :
    ((finish fault).run s).2.disk.hasPath m.site.pidFile = .ok false ∨
    (Path.ofText stateFile).place m.disk.here = m.site.pidFile.place m.disk.here ∧
      ((finish fault).run s).2.disk.HoldsObject m.site.pidFile
        (m.site.pidFile.place m.disk.here) := by
  rcases hs.store.file with hheld | ⟨hplace, hobject⟩
  · have hholder : PidFile.holder? s.disk s.site.pidFile = some s.processes.own := by
      rw [PidFile.holder?, hs.site, hs.processes, show s.disk.readText _ = _ from hheld.readText]
      exact Numeral.integer?_signedDigits (PidFile.withinLimit_number hown)
    obtain ⟨disk, hrelease, hremove⟩ := PidFile.exists_release hholder
    rw [disk_finish fault hrelease, ← hs.site]
    exact .inl (Disk.hasPath_of_remove hremove)
  · rw [disk_finish_of_holdsObject fault (hs.site ▸ hobject)]
    exact .inr ⟨hplace, hobject⟩

/-- How a run of the program can end while others leave the pid file alone. -/
inductive Ends (m : Machine) (arguments : List String) : Outcome × Disk → Prop
  /-- things happen until a signal to terminate -/
  | signalled {events : List Event} (spares : ∀ e ∈ events, e.Spares m.site.pidFile) :
      Ends m arguments (run m arguments events)
  /-- the loop ends after some turns, perhaps with a fault -/
  | broken {turns : List Turn} {fault : Option Fault} (spares : ∀ t ∈ turns, t.Spares m.site.pidFile) :
      Ends m arguments (serve m arguments (turns.forM Turn.act) fault)

theorem Ends.exists_serve {result : Outcome × Disk} (h : Ends m arguments result)
    (hproper : m.site.pidFile.IsProper) : ∃ act fault, result = serve m arguments act fault ∧
      ∀ stateFile s, s.Holds (Guards m stateFile) m → (act.run s).2.Holds (Guards m stateFile) m := by
  cases h with
  | @signalled events spares =>
    refine ⟨_, none, run_eq_serve m arguments events, fun stateFile s hs => ?_⟩
    refine hs.follow (Store.abiding_minds hproper) fun e he => ?_
    rcases List.mem_append.1 he with he | he
    · exact respects_of_spares (spares e he)
    · rw [List.mem_singleton.1 he]
      exact trivial
  | @broken turns fault spares =>
    refine ⟨_, fault, rfl, fun stateFile s hs => ?_⟩
    refine hs.turns (Store.abiding_minds hproper) fun t ht e he => ?_
    subst he
    exact respects_of_spares (spares _ ht)

/-- **The pid file is given back.**  The program leaves the disk as it was when its arguments cannot be read,
when another process holds the file, and whenever it ends before it takes the file; in the second
case it does not touch the telemetry and ends with one.  Otherwise, however it ends, the file is gone, unless
the settings lead the state file to its place; then it is gone or holds the records.  All this is so if the
program can say where it publishes: at a torn path it stops, and the file stays. -/
theorem gives_back {result : Outcome × Disk}
    (hown : 0 < m.processes.own ∧ m.processes.own ≤ 2147483647)
    (haccepts : m.disk.Accepts m.site.pidFile) (hproper : m.site.pidFile.IsProper)
    (hends : Ends m arguments result) :
    match form.parse arguments with
    | .error _ => result.2 = m.disk
    | .ok parsed =>
      (∀ n, PidFile.owner m.processes m.disk m.site.pidFile = .ok (some n) →
        prepare m parsed = (.error alreadyRunning, []) ∧ result = (alreadyRunning, m.disk) ∧
          result.1.ending = .finished 1) ∧
      ((∀ stateFile, ¬ m.Provides parsed stateFile) → result.2 = m.disk) ∧
      (∀ stateFile : String, m.Provides parsed stateFile →
        result.2.hasPath m.site.pidFile = .ok false ∨
        (Path.ofString stateFile).place m.disk.here = m.site.pidFile.place m.disk.here ∧
          ∃ records text, Json.print (.object records) = .ok text ∧
            result.2.read m.site.pidFile = .ok text.toUTF8) ∧
      ∀ torn : Torn, m.Provides parsed (.torn torn) → result.1.ending = .stopped .badValue ∧
        m.disk.writeText m.site.pidFile (String.ofList (Decimal.signedDigits m.processes.own)) =
          .ok result.2 := by
  obtain ⟨act, fault, rfl, hact⟩ := hends.exists_serve hproper
  have habiding (stateFile : Text) : Store.Abiding (Guards m stateFile) := Store.abiding_minds hproper
  unfold serve
  cases hparse : form.parse arguments with
  | error leave => rfl
  | ok parsed =>
    dsimp only
    refine ⟨fun n howner => ?_, fun hnone => ?_, fun stateFile hprovides => ?_,
      fun torn hprovides => ?_⟩
    · have hprepare : prepare m parsed = (.error alreadyRunning, []) := by
        unfold prepare
        rw [howner]
      rw [hprepare]
      exact ⟨rfl, rfl, rfl⟩
    · cases hprepare : (prepare m parsed).1 with
      | ok s =>
        obtain ⟨stateFile, hprovides⟩ := provides_of_prepare hprepare
        exact absurd hprovides (hnone stateFile)
      | error outcome => rfl
    · obtain ⟨s, hprepare, hs, hsaid, -⟩ := exists_prepare haccepts hprovides
      obtain ⟨ending, s', hs', hlife⟩ :=
        (hs.start (habiding stateFile)).exists_finish (hact stateFile) fault
      have hbegun : s.hasBegun = true :=
        decide_eq_true (hsaid ▸ ending_greeting m.processes.own stateFile)
      rw [hprepare]
      dsimp only
      rw [if_pos hbegun, hlife]
      exact (released_finish hs' hown ending).imp_right
        fun ⟨hplace, records, text, hprint, hholds⟩ => ⟨hplace, records, text, hprint, hholds.read⟩
    · obtain ⟨s, hprepare, -, hsaid, hwrite⟩ := exists_prepare haccepts hprovides
      have hending : s.outcome.ending = .stopped .badValue :=
        hsaid ▸ ending_greeting m.processes.own (.torn torn)
      have hbegun : ¬ s.hasBegun = true := by
        rw [hasBegun, hending]
        decide
      rw [hprepare]
      dsimp only
      rw [if_neg hbegun]
      exact ⟨hending, hwrite⟩

/-- The arguments that name the file of the battery. -/
def fakeArguments : List String := ["--fake", "snapshot.json"]

/-- What is read from them. -/
def fakeParsed : Parsed where
  switches := [(⟨["--fake"], .takeValue⟩, .text "snapshot.json")]

/-- The file of the battery. -/
def fakeFile : SnapshotFile where
  path := .ofString "snapshot.json"

/-- A machine with a pid file that was left behind by a process that is gone. -/
def stale : Machine where
  site := Control.localSite
  disk := {
    nodes := [(["daemon.pid"], .file "17".toUTF8), (["snapshot.json"], .file "[\x7b\x7d]".toUTF8)] }

/-- The disk runs full, the settings are read again, and time goes on until the poll is due. -/
def crowdedTurns : List Turn :=
  [.event (.disk fun d => { d with full := true }), .event (.signal .hangUp), .clock 1010000, .call 2]

/-- The file is taken over, and it is removed when the loop ends with a fault. -/
theorem gives_back_stale : 0 < stale.processes.own ∧ stale.processes.own ≤ 2147483647 ∧
    stale.disk.Accepts stale.site.pidFile ∧ stale.site.pidFile.IsProper ∧
    (∀ t ∈ crowdedTurns, t.Spares stale.site.pidFile) ∧
    form.parse fakeArguments = .ok fakeParsed ∧ stale.Provides fakeParsed "state.json" ∧
    stale.disk.hasPath stale.site.pidFile = .ok true ∧
    (serve stale fakeArguments (crowdedTurns.forM Turn.act) (some .badValue)).2.hasPath
      stale.site.pidFile = .ok false := by
  have haccepts : stale.disk.Accepts stale.site.pidFile := ⟨⟨["daemon.pid"], rfl, nofun⟩, rfl⟩
  have hproper : stale.site.pidFile.IsProper := ⟨"daemon.pid", rfl, by decide, by decide⟩
  have hfull (d : Disk) : d.Keeps { d with full := true } := ⟨rfl, fun _ => id⟩
  have hspares : ∀ t ∈ crowdedTurns, t.Spares stale.site.pidFile := by
    simp only [crowdedTurns, List.forall_mem_cons]
    exact ⟨fun d => ⟨rfl, fun place content h => ⟨Disk.locate_of_keeps (hfull d) h.locate, h.node⟩⟩,
      trivial, trivial, trivial, List.forall_mem_nil _⟩
  have hparse : form.parse fakeArguments = .ok fakeParsed := rfl
  have hprovides : stale.Provides fakeParsed "state.json" :=
    ⟨eq_ok_of_toOption (by decide +kernel), ⟨Settings.default stale.site, .file fakeFile, rfl, rfl, rfl⟩,
      _, rfl⟩
  have hback := gives_back ⟨by decide, by decide⟩ haccepts hproper
    (@Ends.broken stale fakeArguments crowdedTurns (some .badValue) hspares)
  rw [hparse] at hback
  refine ⟨by decide, by decide, haccepts, hproper, hspares, hparse, hprovides, rfl, ?_⟩
  refine (hback.2.2.1 "state.json" hprovides).resolve_right fun ⟨hplace, _⟩ => ?_
  exact absurd hplace (by decide)

/-- A machine on which the settings lead the state file to the pid file, and there is one battery. -/
def shared : Machine where
  site := Control.localSite
  disk := {
    nodes := [(["settings.json"], .file "\x7b\"state_file\": \"daemon.pid\"\x7d".toUTF8),
      (["snapshot.json"], .file "[\x7b\x7d]".toUTF8)] }

/-- The settings of the machine. -/
def sharedSettings : Settings :=
  { Settings.default Control.localSite with stateFile := .text "daemon.pid" }

/-- The disk of the machine when the pid file was taken. -/
def sharedDisk : Disk :=
  shared.disk.put ["daemon.pid"] (.file (String.ofList (Decimal.signedDigits 4242)).toUTF8)

/-- The service that is prepared. -/
def sharedService : Service :=
  taking shared sharedSettings none (.file fakeFile) "daemon.pid"
    { backing := some (.ofString "daemon.pid"), disk := shared.disk } sharedDisk

theorem prepare_shared : shared.Provides fakeParsed "daemon.pid" ∧
    (prepare shared fakeParsed).1 = .ok sharedService := by
  have hfree : PidFile.owner shared.processes shared.disk shared.site.pidFile = .ok none := rfl
  have hcontent : shared.disk.content shared.site.settingsFile =
      .ok (.object [(.text "state_file", .text "daemon.pid")]) := eq_ok_of_toOption (by decide +kernel)
  have hsettings : loadSettings shared.site shared.disk (fakeParsed.switch? "--config") =
      .ok sharedSettings := by
    refine (Settings.load_eq (show _ = Except.ok true from rfl)).trans ?_
    dsimp only [Option.getD]
    rw [hcontent]
    rfl
  have hsource : (openSource shared sharedSettings (fakeParsed.switch? "--fake")).1 =
      .ok (.file fakeFile) := rfl
  have hstore : Store.onFile shared.disk (.ofString "daemon.pid") =
      .ok { backing := some (.ofString "daemon.pid"), disk := shared.disk } := rfl
  have hwrite : shared.disk.writeText shared.site.pidFile
      (String.ofList (Decimal.signedDigits shared.processes.own)) = .ok sharedDisk :=
    Disk.write_eq_ok_iff.2 ⟨["daemon.pid"], rfl, nofun, rfl, rfl⟩
  exact ⟨⟨hfree, ⟨_, _, hsettings, rfl, hsource⟩, _, hstore⟩,
    (prepare_eq hfree hsettings hsource).trans (take_eq hfree rfl hstore hwrite)⟩

theorem hasPath_serve {q : Path} {values : Table Value} {text : String} {act : M Unit}
    (hparse : form.parse arguments = .ok parsed) (hprepare : (prepare m parsed).1 = .ok s)
    (hbegun : s.hasBegun = true) (hprint : Json.print (.object values) = .ok text)
    (hstarted : (start.run s).2.Holds (Store.Minds m.site.pidFile q m.disk.here text.toUTF8) m)
    (hact : ∀ s : Service, s.Holds (Store.Minds m.site.pidFile q m.disk.here text.toUTF8) m →
      (act.run s).2.Holds (Store.Minds m.site.pidFile q m.disk.here text.toUTF8) m)
    (fault : Option Fault) :
    (serve m arguments act fault).2.hasPath m.site.pidFile = .ok true := by
  obtain ⟨ending, s', hs', hlife⟩ := Holds.exists_finish hstarted hact fault
  have hobject : s'.disk.HoldsObject m.site.pidFile (m.site.pidFile.place m.disk.here) :=
    hs'.store.file.elim (fun hholds => ⟨values, text, hprint, hholds⟩) And.right
  unfold serve
  rw [hparse]
  dsimp only
  rw [hprepare]
  dsimp only
  rw [if_pos hbegun, hlife, disk_finish_of_holdsObject ending (hs'.site ▸ hobject)]
  obtain ⟨_, _, -, hholds⟩ := hobject
  exact hholds.hasPath

/-- **Where the state file is the pid file the records stay**: there is one battery, its record is put in
the place of the process when the daemon is started, and it is still there when the daemon was told
to terminate. -/
theorem left_to_records : 0 < shared.processes.own ∧ shared.processes.own ≤ 2147483647 ∧
    shared.disk.Accepts shared.site.pidFile ∧ shared.site.pidFile.IsProper ∧
    form.parse fakeArguments = .ok fakeParsed ∧ shared.Provides fakeParsed "daemon.pid" ∧
    (run shared fakeArguments []).2.hasPath shared.site.pidFile = .ok true := by
  have haccepts : shared.disk.Accepts shared.site.pidFile := ⟨⟨["daemon.pid"], rfl, nofun⟩, rfl⟩
  have hproper : shared.site.pidFile.IsProper := ⟨"daemon.pid", rfl, by decide, by decide⟩
  have hparse : form.parse fakeArguments = .ok fakeParsed := rfl
  obtain ⟨hprovides, hprepare⟩ := prepare_shared
  refine ⟨by decide, by decide, haccepts, hproper, hparse, hprovides, ?_⟩
  have hminds : sharedService.daemon.monitor.store.Minds shared.site.pidFile shared.site.pidFile
      shared.disk.here (String.ofList (Decimal.signedDigits 4242)).toUTF8 :=
    ⟨rfl, rfl, .inl ⟨rfl, rfl⟩⟩
  have hdependable : sharedService.daemon.monitor.store.Dependable shared.site.pidFile :=
    ⟨⟨⟨rfl, List.nodup_nil, List.forall_mem_nil _⟩, exists_ok_of_toOption (by decide +kernel)⟩,
      List.forall_mem_nil _⟩
  have hfresh : sharedService.daemon.monitor.Fresh := ⟨rfl, rfl, rfl, List.nodup_nil⟩
  have hcontent : fakeFile.content sharedDisk = .ok (.list [.object []]) :=
    eq_ok_of_toOption (by decide +kernel)
  have hread : fakeFile.read sharedDisk = (.ok [{}], fakeFile) := by
    rw [SnapshotFile.read_eq, hcontent]
    rfl
  have hsource : sharedService.daemon.source.read sharedService.daemon.disk =
      (.ok [{}], .file fakeFile) := by
    change Source.read sharedDisk (.file fakeFile) = _
    rw [Source.read, hread]
  obtain ⟨watch, hsaw⟩ := completes_of_isClean
    (show isClean (Watch.batteriesChanged [{}])
      (Daemon.advised (.file fakeFile) sharedService.daemon.monitor).watch = true by decide +kernel)
  obtain ⟨values, text, hprint, hstarted⟩ :=
    hminds.exists_start hproper hdependable hfresh hsource (by decide) hsaw
  have habiding : Store.Abiding (Store.Minds shared.site.pidFile shared.site.pidFile
      shared.disk.here text.toUTF8) := Store.abiding_minds hproper
  rw [run_eq_serve]
  refine hasPath_serve hparse hprepare rfl hprint (Holds.started rfl rfl hstarted) (fun s hs => ?_) none
  exact hs.follow habiding (List.forall_mem_singleton.2 trivial)

end Service

end CommandLine

end BatteryMonitor
