import BatteryMonitor.Proofs.Daemon.Abiding
import BatteryMonitor.Proofs.Frame
import BatteryMonitor.Proofs.Monitor.CatchUp
import BatteryMonitor.Proofs.PidFile

/-!
# A file that the daemon minds

A daemon writes one file of its own and the draft beside it.  A file at another place is left alone by all that
it does, and so is one to which its own file is led, until something is written; from then on it
holds records, which name no process (`PidFile.holder?_of_holdsObject`).

* `Store.Minds` : the file holds what it is to hold, or records that came there in this way;
* `Store.abiding_minds` : this is kept whatever is done with the store, if the file is not named like a draft;
* `Store.Minds.exists_start` : a daemon that finds a battery when it starts puts records there at once.
-/

namespace BatteryMonitor

open Effect

namespace Json

theorem exists_print_object {values : Table Value} {text : String}
    (h : print (.object values) = .ok text) : ∃ cs, text = String.ofList ('\x7b' :: cs) := by
  obtain ⟨cs, hprint, h⟩ := bind_eq_ok.1 h
  obtain rfl := Except.ok.inj h
  rw [printValue] at hprint
  obtain ⟨sorted, -, hprint⟩ := bind_eq_ok.1 hprint
  obtain ⟨parts, -, hprint⟩ := bind_eq_ok.1 hprint
  obtain rfl := Except.ok.inj hprint
  cases parts with
  | nil => exact ⟨_, rfl⟩
  | cons part parts => exact ⟨_, congrArg String.ofList (List.cons_append ..)⟩

end Json

theorem PidFile.holder?_of_holdsObject {d : Disk} {p : Path} {place : List String}
    (h : d.HoldsObject p place) : holder? d p = none := by
  obtain ⟨values, text, hprint, hholds⟩ := h
  obtain ⟨cs, rfl⟩ := Json.exists_print_object hprint
  rw [holder?, hholds.readText]
  exact Numeral.integer?_of_brace cs

namespace Store

variable {s : Store} {d disk : Disk} {p q : Path} {here : List String} {content : ByteArray}

/-- The store is backed by the file at `q`, and the one at `p` holds what it is to hold; if the two
are at one place, it may hold what was written to it for the store. -/
structure Minds (p q : Path) (here : List String) (content : ByteArray) (s : Store) : Prop where
  backing : s.backing = some q
  start : s.disk.here = here
  file : s.disk.Holds p (p.place here) content ∨
    q.place here = p.place here ∧ s.disk.HoldsObject p (p.place here)

theorem Minds.withDisk (hs : s.Minds p q here content) (hhere : disk.here = s.disk.here)
    (hkept : ∀ bytes, s.disk.Holds p (p.place here) bytes → disk.Holds p (p.place here) bytes) :
    Minds p q here content { s with disk } where
  backing := hs.backing
  start := hhere.trans hs.start
  file := hs.file.imp (hkept _) fun ⟨hplace, values, text, hprint, hholds⟩ =>
    ⟨hplace, values, text, hprint, hkept _ hholds⟩

theorem minds_of_write {text : String} (hs : onFile d q = .ok s) (h : d.writeText p text = .ok disk) :
    Minds p q d.here text.toUTF8 { s with disk } := by
  obtain ⟨values, -, rfl⟩ := onFile_eq_ok_iff.1 hs
  have hhere : disk.here = d.here := (Disk.alike_write h).2.2.here
  obtain ⟨place, hholds⟩ := Disk.holds_write h
  obtain rfl := Disk.place_of_locate hholds.locate
  exact ⟨rfl, hhere, .inl (hhere ▸ hholds)⟩

theorem Minds.rename {draft : Path} {values : Table Value} {text : String} {place : List String}
    (hs : s.Minds p q here content) (hprint : Json.print (.object values) = .ok text)
    (hdraft : s.disk.Holds draft place text.toUTF8) (hne : draft.place here ≠ p.place here)
    (h : s.disk.rename draft q = .ok disk) : Minds p q here content { s with disk } := by
  have halike := Disk.alike_rename h
  by_cases hplace : q.place here = p.place here
  · obtain ⟨place', hholds⟩ := Disk.holds_rename h hdraft.read
    obtain rfl : place' = p.place here := by
      rw [Disk.place_of_locate hholds.locate, halike.here, hs.start, hplace]
    have hlocate : s.disk.locate p = .ok (p.place here) :=
      hs.file.elim (·.locate) fun ⟨_, _, _, _, hholds⟩ => hholds.locate
    refine ⟨hs.backing, halike.here.trans hs.start, .inr ⟨hplace, values, text, hprint, ?_⟩⟩
    exact ⟨Disk.locate_of_keeps halike.keeps hlocate, hholds.node⟩
  · exact hs.withDisk halike.here fun bytes hholds =>
      hholds.rename h (by rwa [hs.start]) (by rwa [hs.start])

/-- **Writing the store's file leaves the other one alone**, whose name is not that of a draft. -/
theorem keeps_save_minds (hp : p.IsProper) : Keeps (Minds p q here content) save := by
  have hne := Path.place_draft_ne hp q here
  have hmakes : Keeps (Minds p q here content) (persist (·.makeDirectories q.parent)) :=
    fun s hs => after_persist hs fun disk h =>
      hs.withDisk (Disk.along_makeDirectories h).2.2.1.here fun bytes hholds => hholds.makeDirectories h
  have hwrites (text : String) :
      Keeps (Minds p q here content) (persist (·.writeText (q.withEnding ".tmp") text)) :=
    fun s hs => after_persist hs fun disk h => hs.withDisk (Disk.alike_write h).2.2.here
      fun bytes hholds => hholds.write h (by rwa [hs.start])
  refine keeps_get_bind fun s hs => ?_
  rw [hs.backing]
  refine (keeps_bind hmakes fun made => keeps_ite ?_ (keeps_pure _)) s hs
  refine keeps_bind (hwrites "") fun cleared => keeps_ite ?_ (keeps_pure _)
  refine keeps_bind keeps_get fun t => ?_
  have hlift : Keeps (Minds p q here content) (save.liftExcept (Json.print (.object t.values))) := by
    cases Json.print (.object t.values) with
    | ok text => exact keeps_pure _
    | error fault => exact keeps_throw _
  refine keeps_bind_completes hlift fun u text v _ htext hv => ?_
  obtain ⟨hprint, rfl⟩ := completes_liftExcept htext
  -- the draft is known to hold the text when it is moved
  refine keeps_bind_completes (hwrites text) (fun u written v _ hwritten hv => ?_) _ hv
  cases written with
  | false => exact hv
  | true =>
    obtain ⟨disk, hwrite, rfl⟩ := completes_persist hwritten
    obtain ⟨place, hdraft⟩ := Disk.holds_write hwrite
    rw [if_pos rfl, after_discard]
    exact after_persist hv fun disk h => hv.rename hprint hdraft hne h

/-- **A store minds the file whatever is done with it.** -/
theorem abiding_minds (hp : p.IsProper) : Abiding (Minds p q here content) where
  save := keeps_save_minds hp
  join _ _ _ _ _ _ hs := ⟨hs.backing, hs.start, hs.file⟩
  erase _ _ hs := ⟨hs.backing, hs.start, hs.file⟩
  told _ _ hs := ⟨hs.backing, hs.start, hs.file⟩
  insert _ _ _ hs := ⟨hs.backing, hs.start, hs.file⟩

end Store

/-- Where the store's own file is the one that it minds, the record of the first battery takes its place when
the daemon is started. -/
theorem Store.Minds.exists_start {d : Daemon} {p : Path} {here : List String} {content : ByteArray}
    {source : Source} {r : Reading} {watch : Watch Clockwork}
    (hminds : d.monitor.store.Minds p p here content) (hp : p.IsProper) (hstore : d.monitor.store.Dependable p)
    (hfresh : d.monitor.Fresh) (hread : d.source.read d.disk = (.ok [r], source))
    (hr : r.isSound = true)
    (hsaw : Completes (Watch.batteriesChanged [r]) (Daemon.advised source d.monitor).watch () watch) :
    ∃ values text, Json.print (.object values) = .ok text ∧
      (after Daemon.start d).monitor.store.Minds p p here text.toUTF8 := by
  have hsource : Completes Daemon.readSource d (some [r])
      { d with source, monitor := Daemon.advised source d.monitor } := by
    rw [Completes, Daemon.run_readSource, hread]
  have hadvised : (Daemon.advised source d.monitor).Fresh :=
    ⟨hfresh.readings, hfresh.states, hfresh.keys, hfresh.distinct⟩
  have hbacked := hadvised.backed hstore.toLegible
  have hworking : (Daemon.advised source d.monitor).Working (Store.Dependable p) :=
    ⟨hbacked.fitted, hbacked.named, hstore⟩
  have hprimed := (Store.abiding_minds hp).batteriesChanged [r] (Daemon.advised source d.monitor) hminds
  obtain ⟨place, values, text, hprint, hholds⟩ :=
    Monitor.holdsObject_batteriesChanged hworking hadvised hr hsaw
  obtain rfl := Disk.place_of_locate hholds.locate
  rw [hprimed.start] at hholds
  refine ⟨values, text, hprint, ?_⟩
  unfold Daemon.start
  rw [hsource.after_bind]
  refine after_bind_of_keeps (P := fun d : Daemon => d.monitor.store.Minds p p here text.toUTF8) ?_
    fun _ => keeps_bind Store.Abiding.schedulePoll fun _ => Store.Abiding.watchSleep
  unfold after
  rw [Daemon.run_onMonitor]
  exact ⟨hprimed.backing, hprimed.start, .inl hholds⟩

end BatteryMonitor
