import BatteryMonitor.Daemon
import BatteryMonitor.Proofs.Telemetry.SnapshotFile

/-!
# Polling a snapshot file

A daemon over a snapshot file reads the file anew at every poll, and the file can hold anything: it may
be missing, be no JSON text at all, or describe batteries that no pipeline can work with.  A read knows
two kinds of content, `SnapshotFile.Describes` and `SnapshotFile.IsRefused`; a content of neither kind
has a fault that goes through the poll.  `Daemon.poll_outcome` says what one poll does after any number
of polls, whatever the file held at each of them: the monitor is only reached by a list of objects.
-/

namespace BatteryMonitor

open Effect

namespace Daemon

/-! ### One poll -/

theorem run_onMonitor {α : Type} (act : Monitor.M Clockwork α) (d : Daemon) :
    (onMonitor act).run.run d =
      ((act.run.run d.monitor).1, { d with monitor := (act.run.run d.monitor).2 }) := by
  unfold onMonitor
  rw [run_get_bind]
  rcases act.run.run d.monitor with ⟨fault | a, monitor⟩ <;> rfl

/-- What readings have to say before they reach the pipeline: whether they come with estimates. -/
def advised (source : Source) (m : Monitor Clockwork) : Monitor Clockwork :=
  { m with watch.conditions.supported := source.providesEstimates }

theorem run_readSource (d : Daemon) : readSource.run.run d =
    match d.source.read d.disk with
    | (.ok readings, source) =>
      (.ok (some readings), { d with source, monitor := advised source d.monitor })
    | (.error (.telemetry _), source) => (.ok none, { d with source })
    | (.error fault, source) => (.error fault, { d with source }) := by
  unfold readSource
  rw [run_get_bind]
  rcases d.source.read d.disk with ⟨fault | readings, source⟩
  · cases fault <;> rfl
  · rfl

theorem run_update (d : Daemon) : update.run.run d =
    match d.source.read d.disk with
    | (.ok readings, source) =>
      let outcome := (Monitor.batteriesChanged readings).run.run (advised source d.monitor)
      (outcome.1.map fun _ => true, { d with source, monitor := outcome.2 })
    | (.error (.telemetry _), source) => (.ok true, { d with source })
    | (.error fault, source) => (.error fault, { d with source }) := by
  unfold update
  rw [run_bind, run_readSource]
  rcases d.source.read d.disk with ⟨fault | readings, source⟩
  · cases fault <;> rfl
  · dsimp only
    rw [run_bind, run_onMonitor]
    dsimp only
    generalize (Monitor.batteriesChanged readings).run.run (advised source d.monitor) = outcome
    rcases outcome with ⟨fault | u, monitor⟩ <;> rfl

theorem eq_true_of_completes_update {d d' : Daemon} {again : Bool}
    (h : Completes update d again d') : again = true := by
  have hout : (update.run.run d).1 = .ok again := congrArg Prod.fst h
  rw [run_update] at hout
  split at hout
  · rename_i readings source _
    dsimp only at hout
    generalize ((Monitor.batteriesChanged readings).run.run (advised source d.monitor)).1 = result
      at hout
    cases result with
    | ok u => exact (Except.ok.inj hout).symm
    | error fault => cases hout
  · exact (Except.ok.inj hout).symm
  · cases hout

/-- A poll is without a fault iff the source has trouble, or readings that the pipeline can work with. -/
theorem isClean_update_iff (d : Daemon) : isClean update d = true ↔
    (∃ trouble, (d.source.read d.disk).1 = .error (.telemetry trouble)) ∨
      ∃ readings, (d.source.read d.disk).1 = .ok readings ∧
        isClean (Monitor.batteriesChanged readings)
          (advised (d.source.read d.disk).2 d.monitor) = true := by
  unfold isClean
  rw [run_update]
  rcases d.source.read d.disk with ⟨fault | readings, source⟩
  · cases fault <;> simp [Except.isOk, Except.toBool]
  · cases hout : ((Monitor.batteriesChanged readings).run.run (advised source d.monitor)).1 <;>
      simp [Except.isOk, Except.toBool, Except.map, hout]

theorem monitor_after_update {d : Daemon}
    (h : ¬ ∃ readings, (d.source.read d.disk).1 = .ok readings) :
    (after update d).monitor = d.monitor := by
  unfold after
  rw [run_update]
  generalize d.source.read d.disk = outcome at h ⊢
  rcases outcome with ⟨fault | readings, source⟩
  · cases fault <;> rfl
  · exact absurd ⟨readings, rfl⟩ h

/-! ### Any number of polls -/

/-- The daemon after others have changed the files. -/
def withFiles (change : Disk → Disk) (d : Daemon) : Daemon :=
  d.setDisk (change d.disk)

/-- The files change, and then the daemon polls. -/
def poll (change : Disk → Disk) : M Unit := do
  modify (withFiles change)
  discard update

/-- The daemon reads a file. -/
def ReadsFile (path : Path) (d : Daemon) : Prop := ∃ f, d.source = .file f ∧ f.path = path

theorem keeps_readsFile_update (path : Path) : Keeps (ReadsFile path) update := by
  rintro d ⟨f, hsource, hpath⟩
  have hread : d.source.read d.disk = ((f.read d.disk).1, .file (f.read d.disk).2) := by
    rw [hsource]
    rfl
  refine ⟨(f.read d.disk).2, ?_, (SnapshotFile.read_path f d.disk).trans hpath⟩
  unfold after
  rw [run_update, hread]
  -- whatever comes of the read, the source is the one that it leaves
  rcases (f.read d.disk).1 with fault | readings
  · cases fault <;> rfl
  · rfl

theorem readsFile_afterAll {d : Daemon} {path : Path} (hd : d.ReadsFile path)
    (past : List (Disk → Disk)) : (afterAll poll d past).ReadsFile path := by
  refine afterAll_induction (Q := fun _ => True) hd (fun change _ => ?_) fun _ _ => trivial
  refine keeps_bind (keeps_modify fun d hd => hd) fun _ => ?_
  exact keeps_discard (keeps_readsFile_update path)

/-- **A poll of a snapshot file, after any number of polls.**  Let the file have held anything at each of
them.  The file is read as a list of readings iff it is a list of objects, and as trouble iff it is
refused.  The poll runs to its end iff the file is refused or describes readings that the pipeline can
work with, and then asks for the next one.  Whenever the file is no list of objects the monitor is
left as it was, with all that it keeps and has told. -/
theorem poll_outcome {d₀ : Daemon} {f : SnapshotFile} (hsource : d₀.source = .file f)
    (past : List (Disk → Disk)) (change : Disk → Disk) :
    let d := (afterAll poll d₀ past).withFiles change
    let content := f.content d.disk
    (∃ g, d.source = .file g ∧ g.path = f.path) ∧
      ((∃ readings, (d.source.read d.disk).1 = .ok readings) ↔
        ∃ objects, SnapshotFile.Describes content objects) ∧
      ((∃ trouble, (d.source.read d.disk).1 = .error (.telemetry trouble)) ↔
        SnapshotFile.IsRefused content) ∧
      ((∃ d', Completes update d true d') ↔ SnapshotFile.IsRefused content ∨
        ∃ readings, (d.source.read d.disk).1 = .ok readings ∧
          isClean (Monitor.batteriesChanged readings)
            (advised (d.source.read d.disk).2 d.monitor) = true) ∧
      ((¬ ∃ objects, SnapshotFile.Describes content objects) →
        (after update d).monitor = d.monitor) := by
  intro d content
  obtain ⟨g, hg, hpath⟩ := readsFile_afterAll ⟨f, hsource, rfl⟩ past
  have hread : (d.source.read d.disk).1 = (g.read d.disk).1 := by
    rw [show d.source = .file g from hg]
    rfl
  have hcontent : content = g.content d.disk := by
    unfold content SnapshotFile.content
    rw [hpath]
  have hok : (∃ readings, (d.source.read d.disk).1 = .ok readings) ↔
      ∃ objects, SnapshotFile.Describes content objects := by
    rw [hread, hcontent]
    exact SnapshotFile.read_eq_ok_iff
  have htrouble : (∃ trouble, (d.source.read d.disk).1 = .error (.telemetry trouble)) ↔
      SnapshotFile.IsRefused content := by
    rw [hread, hcontent]
    exact SnapshotFile.read_eq_telemetry_iff
  have hclean : (∃ d', Completes update d true d') ↔ isClean update d = true := by
    constructor
    · exact fun ⟨_, h⟩ => h.isClean
    · intro h
      obtain ⟨again, hcompletes⟩ := completes_of_isClean h
      exact ⟨_, eq_true_of_completes_update hcompletes ▸ hcompletes⟩
  refine ⟨⟨g, hg, hpath⟩, hok, htrouble, ?_, fun h => monitor_after_update (mt hok.1 h)⟩
  rw [hclean, isClean_update_iff, htrouble]

/-- A snapshot file in the directory that the system runs in. -/
def snapshotFile : SnapshotFile where
  path := { root := "", names := ["snapshot.json"] }

/-- The file is written with a text, and nothing else is there. -/
def written (text : String) (_ : Disk) : Disk where
  nodes := [(["snapshot.json"], .file text.toUTF8)]

/-- A daemon that reads the file. -/
def overSnapshot : Daemon :=
  create (.file snapshotFile) .inMemory (.int 5) (.int 1) {} {}

/-- Two batteries, of which the first has a key of its own. -/
def twoBatteries : String := "\x7b\"batteries\": [\x7b\"store_key\": \"A\"\x7d, \x7b\x7d]\x7d"

/-- A file described batteries and then listed a number; now it is no JSON text at all.  The poll goes on,
and the monitor is as the second poll left it. -/
theorem poll_outcome_nonsense :
    let d := (afterAll poll overSnapshot [written "[1]", written twoBatteries]).withFiles
      (written "nonsense")
    overSnapshot.source = .file snapshotFile ∧ SnapshotFile.IsRefused (snapshotFile.content d.disk) ∧
      (∃ trouble, (d.source.read d.disk).1 = .error (.telemetry trouble)) ∧
      (∃ d', Completes update d true d') ∧ (after update d).monitor = d.monitor := by
  intro d
  have hrefused : SnapshotFile.IsRefused (snapshotFile.content d.disk) := by decide +kernel
  have hsource : overSnapshot.source = .file snapshotFile := rfl
  obtain ⟨-, hread, htrouble, hcompletes, hkept⟩ := poll_outcome hsource
    [written "[1]", written twoBatteries] (written "nonsense")
  obtain ⟨trouble, hfault⟩ := htrouble.2 hrefused
  have hnothing : ¬ ∃ readings, (d.source.read d.disk).1 = .ok readings := by
    rintro ⟨readings, hreadings⟩
    cases hfault.symm.trans hreadings
  exact ⟨hsource, hrefused, ⟨trouble, hfault⟩, hcompletes.2 (.inl hrefused), hkept (mt hread.2 hnothing)⟩

/-- A list with a number in it is read neither as readings nor as trouble, and the poll stops. -/
theorem stopped_by_number :
    let d := overSnapshot.withFiles (written "[1]")
    (d.source.read d.disk).1 = .error .notRecord ∧ isClean update d = false := by
  refine ⟨?_, by decide +kernel⟩
  rfl

end Daemon

end BatteryMonitor
