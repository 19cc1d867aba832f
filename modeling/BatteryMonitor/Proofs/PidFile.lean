import BatteryMonitor.Process
import BatteryMonitor.Proofs.Disk
import BatteryMonitor.Proofs.Numeral

/-!
# Who holds a file that guards a single instance

A process that asks for the file reads a number in it and tries to signal the process with this number
(`PidFile.owner_cases`).  What it can signal is not all that runs: processes of other users it cannot
(`Processes.Reaches`), and numbers that are not positive, which stand for groups, it may.  Numbers
beyond 32 bits cannot be asked for at all (`Processes.CanAsk`).

* `PidFile.answers_iff` : when the answer to a process is what runs on the host;
* `PidFile.kept_act` : the file names whoever holds it, as long as nobody takes it from another;
* `PidFile.single_instance_iff` : along a run of a host nobody takes the file from another who holds it
  iff everybody who asks for it can signal those who hold it then.
-/

namespace BatteryMonitor

/-! ### Processes -/

namespace Processes

variable {ps : Processes} {n : Int}

/-- The process that looks can signal the one with the number. -/
def Reaches (ps : Processes) (n : Int) : Prop := n = ps.own ∨ n ∈ ps.alive

/-- There is a process with the number, of whatever user. -/
def Sees (ps : Processes) (n : Int) : Prop := ps.Reaches n ∨ n ∈ ps.denied

/-- Whether there is a process with the number can be asked for: numbers have 32 bits. -/
def CanAsk (ps : Processes) (n : Int) : Prop :=
  ps.Sees n ∨ -2147483648 ≤ n ∧ n ≤ 2147483647

instance : Decidable (ps.Reaches n) := inferInstanceAs (Decidable (_ ∨ _))

instance : Decidable (ps.Sees n) := inferInstanceAs (Decidable (_ ∨ _))

instance : Decidable (ps.CanAsk n) := inferInstanceAs (Decidable (_ ∨ _))

theorem canSignal_eq : ps.canSignal n =
    if ps.CanAsk n then .ok (decide (ps.Reaches n)) else .error .tooLarge := by
  unfold canSignal
  by_cases hreaches : ps.Reaches n
  · have hasks : ps.CanAsk n := .inl (.inl hreaches)
    rw [if_pos (show n = ps.own ∨ n ∈ ps.alive from hreaches)]
    simp [hasks, hreaches]
  · rw [if_neg (show ¬ (n = ps.own ∨ n ∈ ps.alive) from hreaches)]
    by_cases hdenied : n ∈ ps.denied
    · have hasks : ps.CanAsk n := .inl (.inr hdenied)
      simp [hdenied, hasks, hreaches]
    · have hsees : ¬ ps.Sees n := not_or.2 ⟨hreaches, hdenied⟩
      simp [hdenied, hreaches, CanAsk, hsees]

end Processes

namespace PidFile

open Effect

variable {ps : Processes} {d d' : Disk} {p : Path}

theorem holder?_write {n : Int} (hn : Decimal.withinLimit n = true)
    (h : d.writeText p (String.ofList (Decimal.signedDigits n)) = .ok d') :
    holder? d' p = some n := by
  rw [holder?, Disk.readText_of_writeText h]
  exact Numeral.integer?_signedDigits hn

theorem owner_cases (ps : Processes) (d : Disk) (p : Path) :
    (owner ps d p = .ok none ∧
      ∀ n, holder? d p = some n → ps.CanAsk n ∧ ¬ ps.Reaches n) ∨
    (∃ n, owner ps d p = .ok (some n) ∧ holder? d p = some n ∧ ps.Reaches n) ∨
    (∃ n, owner ps d p = .error .tooLarge ∧ holder? d p = some n ∧ ¬ ps.CanAsk n) := by
  unfold owner
  cases hholder : holder? d p with
  | none => exact .inl ⟨rfl, nofun⟩
  | some n =>
    dsimp only
    rw [Processes.canSignal_eq]
    by_cases hasks : ps.CanAsk n
    · rw [if_pos hasks]
      by_cases hreaches : ps.Reaches n
      · rw [decide_eq_true hreaches]
        exact .inr (.inl ⟨n, rfl, rfl, hreaches⟩)
      · rw [decide_eq_false hreaches]
        exact .inl ⟨rfl, fun m hm => Option.some.inj hm ▸ ⟨hasks, hreaches⟩⟩
    · rw [if_neg hasks]
      exact .inr (.inr ⟨n, rfl, rfl, hasks⟩)

theorem exists_remove {n : Int} (h : holder? d p = some n) : ∃ d', d.remove p = .ok d' := by
  unfold holder? at h
  split at h
  · rename_i s hread
    obtain ⟨content, hread, -⟩ := bind_eq_ok.1 hread
    obtain ⟨place, hholds⟩ := Disk.holds_of_read hread
    exact ⟨_, Disk.remove_eq_ok_iff.2 ⟨place, content, hholds, rfl⟩⟩
  · cases h

theorem release_of_owner {o : Option Int} (h : owner ps d p = .ok o) :
    release ps d p = if o = some ps.own then d.remove p else .ok d := by
  rw [release, h]
  rfl

/-- **A file is removed by the process that it names.** -/
theorem exists_release (h : holder? d p = some ps.own) :
    ∃ d', release ps d p = .ok d' ∧ d.remove p = .ok d' := by
  have howner : owner ps d p = .ok (some ps.own) := by
    rcases owner_cases ps d p with ⟨-, hnone⟩ | ⟨n, howner, hn, -⟩ | ⟨n, -, hn, hasks⟩
    · exact absurd (.inl rfl) (hnone _ h).2
    · rwa [Option.some.inj (hn.symm.trans h)] at howner
    · obtain rfl := Option.some.inj (hn.symm.trans h)
      exact absurd (.inl (.inl (.inl rfl))) hasks
  obtain ⟨d', hremove⟩ := exists_remove h
  exact ⟨d', by rw [release_of_owner howner, if_pos rfl, hremove], hremove⟩

theorem release_of_none (h : holder? d p = none) : release ps d p = .ok d := by
  have howner : owner ps d p = .ok none := by
    rw [owner, h]
  rw [release_of_owner howner, if_neg nofun]

/-! ### Hosts -/

/-- A machine on which processes of any users take a file and give it back. -/
structure Host where
  disk : Disk
  /-- the processes that run -/
  running : List Int
  /-- those of them that took the file and have not given it back -/
  holders : List Int := []

/-- What happens on a host. -/
inductive Act where
  | starts (n : Int)
  | exits (n : Int)
  /-- the process that looks at the others takes the file if it can -/
  | acquires (ps : Processes)
  /-- the process that looks at the others gives the file back if it holds it -/
  | releases (ps : Processes)

/-- What an act does; tells whether the file was taken. -/
def Act.act (p : Path) : Act → Effect Host Bool
  | starts n => do
    modify fun h => { h with running := n :: h.running }
    return false
  | exits n => do
    modify fun h => { h with
      running := h.running.filter (· != n), holders := h.holders.filter (· != n) }
    return false
  | acquires ps => do
    match acquire ps (← get).disk p with
    | .ok (taken, disk) =>
      modify fun h => { h with
        disk, holders := if taken then ps.own :: h.holders else h.holders }
      return taken
    | .error fault => throw fault
  | releases ps => do
    match release ps (← get).disk p with
    | .ok disk =>
      modify fun h => { h with disk, holders := h.holders.filter (· != ps.own) }
      return false
    | .error fault => throw fault

namespace Host

variable {h : Host}

/-- What a process sees of a host: those that run, whoever's they are. -/
structure SeenBy (h : Host) (ps : Processes) : Prop where
  own : ps.own ∈ h.running
  sees : ∀ n, 0 < n → (ps.Sees n ↔ n ∈ h.running)

/-- The file can be read and written, and the numbers of processes are positive ones of 32 bits. -/
structure Ready (p : Path) (h : Host) : Prop where
  accepts : h.disk.Accepts p
  numbers : ∀ n ∈ h.running, 0 < n ∧ n ≤ 2147483647

/-- A process that runs is named in the file. -/
def NamesLive (p : Path) (h : Host) : Prop :=
  ∃ n, holder? h.disk p = some n ∧ 0 < n ∧ n ∈ h.running

end Host

/-- The act can happen. -/
def Act.Fits (h : Host) : Act → Prop
  | starts n => 0 < n ∧ n ≤ 2147483647 ∧ n ∉ h.running
  | exits _ => True
  | acquires ps | releases ps => h.SeenBy ps

theorem run_acquires (ps : Processes) (h : Host) :
    ((Act.acquires ps).act p).run.run h = match acquire ps h.disk p with
      | .ok (taken, disk) => (.ok taken, { h with
          disk, holders := if taken then ps.own :: h.holders else h.holders })
      | .error fault => (.error fault, h) := by
  unfold Act.act
  rw [run_get_bind]
  split <;> rfl

theorem run_releases (ps : Processes) (h : Host) :
    ((Act.releases ps).act p).run.run h = match release ps h.disk p with
      | .ok disk => (.ok false, { h with disk, holders := h.holders.filter (· != ps.own) })
      | .error fault => (.error fault, h) := by
  unfold Act.act
  rw [run_get_bind]
  split <;> rfl

theorem withinLimit_number {n : Int} (hn : 0 < n ∧ n ≤ 2147483647) :
    Decimal.withinLimit n = true :=
  Decimal.withinLimit_of_le (k := 31) (by decide)
    (Nat.le_trans (m := 2147483648) (by omega) (by decide))

/-- **What can come of a call to take the file.** -/
theorem acquires_cases {h : Host} (hready : h.Ready p)
    (hown : 0 < ps.own ∧ ps.own ≤ 2147483647) :
    (∃ h', Completes ((Act.acquires ps).act p) h true h' ∧ h'.running = h.running ∧
      h'.holders = ps.own :: h.holders ∧ h.disk.Alike h'.disk ∧
      holder? h'.disk p = some ps.own ∧
      ∀ n, holder? h.disk p = some n → ps.CanAsk n ∧ ¬ ps.Reaches n) ∨
    (∃ n, Completes ((Act.acquires ps).act p) h false h ∧
      holder? h.disk p = some n ∧ ps.Reaches n) ∨
    (∃ n, ((Act.acquires ps).act p).run.run h = (.error .tooLarge, h) ∧
      holder? h.disk p = some n ∧ ¬ ps.CanAsk n) := by
  unfold Completes
  rw [run_acquires]
  unfold acquire
  rcases owner_cases ps h.disk p with ⟨howner, hnone⟩ | ⟨n, howner, hn, hreaches⟩ |
    ⟨n, howner, hn, hasks⟩
  · obtain ⟨d', hwrite, halike⟩ := Disk.exists_write hready.accepts.opens hready.accepts.room
      (String.ofList (Decimal.signedDigits ps.own)).toUTF8
    rw [howner, show h.disk.writeText p (String.ofList (Decimal.signedDigits ps.own)) = .ok d' from
      hwrite]
    exact .inl ⟨_, rfl, rfl, rfl, halike, holder?_write (withinLimit_number hown) hwrite, hnone⟩
  · rw [howner]
    exact .inr (.inl ⟨n, rfl, hn, hreaches⟩)
  · rw [howner]
    exact .inr (.inr ⟨n, rfl, hn, hasks⟩)

/-- **What can come of a call to give the file back.** -/
theorem releases_cases (ps : Processes) (h : Host) :
    (∃ h', Completes ((Act.releases ps).act p) h false h' ∧ h'.running = h.running ∧
      h'.holders = h.holders.filter (· != ps.own) ∧ h.disk.Alike h'.disk ∧
      (holder? h.disk p = some ps.own ∨ h'.disk = h.disk) ∧
      ∀ n, holder? h.disk p = some n → ps.CanAsk n) ∨
    (∃ n, ((Act.releases ps).act p).run.run h = (.error .tooLarge, h) ∧
      holder? h.disk p = some n ∧ ¬ ps.CanAsk n) := by
  unfold Completes
  rw [run_releases]
  rcases owner_cases ps h.disk p with ⟨howner, hnone⟩ | ⟨n, howner, hn, hreaches⟩ |
    ⟨n, howner, hn, hasks⟩
  · rw [release_of_owner howner, if_neg nofun]
    exact .inl ⟨_, rfl, rfl, rfl, .refl _, .inr rfl, fun n hn => (hnone n hn).1⟩
  · have hasks : ∀ m, holder? h.disk p = some m → ps.CanAsk m := fun m hm =>
      Option.some.inj (hn.symm.trans hm) ▸ .inl (.inl hreaches)
    rw [release_of_owner howner]
    by_cases hown : n = ps.own
    · subst hown
      obtain ⟨d', hremove⟩ := exists_remove hn
      rw [if_pos rfl, hremove]
      exact .inl ⟨_, rfl, rfl, rfl, Disk.alike_remove hremove, .inl hn, hasks⟩
    · rw [if_neg fun heq => hown (Option.some.inj heq)]
      exact .inl ⟨_, rfl, rfl, rfl, .refl _, .inr rfl, hasks⟩
  · unfold release
    rw [howner]
    exact .inr ⟨n, rfl, hn, hasks⟩

/-- **A call to take the file is answered as it should be** iff whether the number in the file can be
asked for and is that of a process that runs. -/
theorem answers_iff {h : Host} (hready : h.Ready p) (hseen : h.SeenBy ps) :
    (∃ taken h', Completes ((Act.acquires ps).act p) h taken h' ∧
      (taken = true ↔ ¬ h.NamesLive p)) ↔
    ∀ n, holder? h.disk p = some n →
      ps.CanAsk n ∧ (ps.Reaches n ↔ 0 < n ∧ n ∈ h.running) := by
  rcases acquires_cases hready (hready.numbers _ hseen.own) with
    ⟨h', hacts, -, -, -, -, hnone⟩ | ⟨m, hacts, hm, hreaches⟩ | ⟨m, hacts, hm, hasks⟩
  · constructor
    · rintro ⟨taken, t, hcompletes, htaken⟩ n hn
      obtain ⟨hasks, hreaches⟩ := hnone n hn
      cases hcompletes.symm.trans hacts
      exact ⟨hasks, iff_of_false hreaches fun hlive => htaken.1 rfl ⟨n, hn, hlive⟩⟩
    · intro hregular
      refine ⟨true, h', hacts, iff_of_true rfl ?_⟩
      rintro ⟨n, hn, hlive⟩
      exact (hnone n hn).2 ((hregular n hn).2.2 hlive)
  · constructor
    · rintro ⟨taken, t, hcompletes, htaken⟩ n hn
      obtain rfl := Option.some.inj (hm.symm.trans hn)
      cases hcompletes.symm.trans hacts
      have hnames : h.NamesLive p :=
        Classical.byContradiction fun hnames => Bool.false_ne_true (htaken.2 hnames)
      obtain ⟨n, hn', hlive⟩ := hnames
      obtain rfl := Option.some.inj (hm.symm.trans hn')
      exact ⟨.inl (.inl hreaches), iff_of_true hreaches hlive⟩
    · intro hregular
      refine ⟨false, h, hacts, iff_of_false Bool.false_ne_true fun hnot => hnot ⟨m, hm, ?_⟩⟩
      exact (hregular m hm).2.1 hreaches
  · refine iff_of_false ?_ fun hregular => hasks (hregular m hm).1
    rintro ⟨taken, t, hcompletes, -⟩
    cases hcompletes.symm.trans hacts

theorem isClean_releases_iff {h : Host} : isClean ((Act.releases ps).act p) h = true ↔
    ∀ n, holder? h.disk p = some n → ps.CanAsk n := by
  rcases releases_cases (p := p) ps h with ⟨h', hacts, -, -, -, -, hall⟩ | ⟨m, hacts, hm, hasks⟩
  · exact iff_of_true hacts.isClean hall
  · refine iff_of_false ?_ fun hall => hasks (hall m hm)
    rw [isClean, hacts]
    exact Bool.false_ne_true

/-! ### Runs -/

namespace Host

/-- Those who hold the file run, and the file names them: so it is one at most. -/
def Kept (p : Path) (h : Host) : Prop :=
  ∀ n ∈ h.holders, n ∈ h.running ∧ holder? h.disk p = some n

end Host

/-- Whoever takes the file finds no other who holds it. -/
def Act.Excludes (p : Path) (h : Host) : Act → Prop
  | acquires ps => (∃ h', Completes ((Act.acquires ps).act p) h true h') →
    ∀ n ∈ h.holders, n = ps.own
  | starts _ | exits _ | releases _ => True

/-- Whoever asks for the file can signal those who hold it. -/
def Act.Reaches (h : Host) : Act → Prop
  | acquires ps => ∀ n ∈ h.holders, ps.Reaches n
  | starts _ | exits _ | releases _ => True

theorem ready_act {h : Host} {e : Act} (hready : h.Ready p) (hfits : e.Fits h) :
    (after (e.act p) h).Ready p := by
  cases e with
  | starts n =>
    refine ⟨hready.accepts, ?_⟩
    intro m hm
    rcases List.mem_cons.1 hm with rfl | hm
    · exact ⟨hfits.1, hfits.2.1⟩
    · exact hready.numbers m hm
  | exits n =>
    refine ⟨hready.accepts, ?_⟩
    intro m hm
    exact hready.numbers m (List.mem_filter.1 hm).1
  | acquires ps =>
    rcases acquires_cases hready (hready.numbers _ hfits.own) with
      ⟨h', hacts, hrunning, -, halike, -⟩ | ⟨m, hacts, -⟩ | ⟨m, hacts, -⟩
    · rw [hacts.after_eq]
      exact ⟨hready.accepts.of_alike halike, hrunning ▸ hready.numbers⟩
    · rwa [hacts.after_eq]
    · rwa [after, hacts]
  | releases ps =>
    rcases releases_cases (p := p) ps h with ⟨h', hacts, hrunning, -, halike, -⟩ | ⟨m, hacts, -⟩
    · rw [hacts.after_eq]
      exact ⟨hready.accepts.of_alike halike, hrunning ▸ hready.numbers⟩
    · rwa [after, hacts]

/-- **What the file says of those who hold it stays true**, as long as nobody takes it from them. -/
theorem kept_act {h : Host} {e : Act} (hready : h.Ready p) (hfits : e.Fits h) (hkept : h.Kept p)
    (hexcludes : e.Excludes p h) : (after (e.act p) h).Kept p := by
  cases e with
  | starts n =>
    intro m hm
    obtain ⟨hruns, hnamed⟩ := hkept m hm
    exact ⟨List.mem_cons_of_mem _ hruns, hnamed⟩
  | exits n =>
    intro m hm
    obtain ⟨hm, hne⟩ := List.mem_filter.1 hm
    obtain ⟨hruns, hnamed⟩ := hkept m hm
    exact ⟨List.mem_filter.2 ⟨hruns, hne⟩, hnamed⟩
  | acquires ps =>
    rcases acquires_cases hready (hready.numbers _ hfits.own) with
      ⟨h', hacts, hrunning, hholders, -, hwritten, -⟩ | ⟨m, hacts, -⟩ | ⟨m, hacts, -⟩
    · rw [hacts.after_eq]
      intro m hm
      rw [hholders] at hm
      obtain rfl : m = ps.own := (List.mem_cons.1 hm).elim id (hexcludes ⟨h', hacts⟩ m)
      exact ⟨hrunning ▸ hfits.own, hwritten⟩
    · rwa [hacts.after_eq]
    · rwa [after, hacts]
  | releases ps =>
    rcases releases_cases (p := p) ps h with
      ⟨h', hacts, hrunning, hholders, -, hfile, -⟩ | ⟨m, hacts, -⟩
    · rw [hacts.after_eq]
      intro m hm
      rw [hholders] at hm
      obtain ⟨hm, hne⟩ := List.mem_filter.1 hm
      obtain ⟨hruns, hnamed⟩ := hkept m hm
      rcases hfile with hown | hsame
      · -- whoever gives the file back was the only one to hold it
        obtain rfl := Option.some.inj (hnamed.symm.trans hown)
        simp at hne
      · exact ⟨hrunning ▸ hruns, hsame ▸ hnamed⟩
    · rwa [after, hacts]

/-- Nobody is passed over iff everybody who holds the file can be signalled. -/
theorem excludes_iff {h : Host} {e : Act} (hready : h.Ready p) (hfits : e.Fits h)
    (hkept : h.Kept p) : e.Excludes p h ↔ e.Reaches h := by
  cases e with
  | starts | exits | releases => exact Iff.rfl
  | acquires ps =>
    rcases acquires_cases hready (hready.numbers _ hfits.own) with
      ⟨h', hacts, -, -, -, -, hnone⟩ | ⟨m, hacts, hm, hreaches⟩ | ⟨m, hacts, hm, hasks⟩
    · constructor
      · intro hexcludes n hn
        exact .inl (hexcludes ⟨h', hacts⟩ n hn)
      · intro hreaches _ n hn
        exact absurd (hreaches n hn) (hnone n (hkept n hn).2).2
    · constructor
      · intro _ n hn
        obtain rfl := Option.some.inj (hm.symm.trans (hkept n hn).2)
        exact hreaches
      · rintro - ⟨h', hcompletes⟩
        cases hcompletes.symm.trans hacts
    · constructor
      · -- whoever holds the file runs, and so can be asked for
        intro _ n hn
        obtain ⟨hruns, hnamed⟩ := hkept n hn
        obtain rfl := Option.some.inj (hm.symm.trans hnamed)
        exact absurd (.inl ((hfits.sees m (hready.numbers m hruns).1).2 hruns)) hasks
      · rintro - ⟨h', hcompletes⟩
        cases hcompletes.symm.trans hacts

section Runs

variable {host : Host} {past : List Act}

theorem ready_afterAll (hready : host.Ready p)
    (hfits : ∀ e earlier, e :: earlier <:+ past → e.Fits (afterAll (Act.act p) host earlier)) :
    (afterAll (Act.act p) host past).Ready p := by
  induction past with
  | nil => exact hready
  | cons e past ih =>
    obtain ⟨he, hpast⟩ := forall_suffix_cons.1 hfits
    exact ready_act (ih hpast) he

/-- Along a run on which nobody takes the file from another, it names whoever holds it. -/
theorem kept_afterAll (hready : host.Ready p) (hnew : host.holders = [])
    (hfits : ∀ e earlier, e :: earlier <:+ past → e.Fits (afterAll (Act.act p) host earlier))
    (hexcludes : ∀ e earlier, e :: earlier <:+ past →
      e.Excludes p (afterAll (Act.act p) host earlier)) :
    (afterAll (Act.act p) host past).Kept p := by
  induction past with
  | nil =>
    intro n hn
    rw [afterAll, hnew] at hn
    cases hn
  | cons e past ih =>
    obtain ⟨he, hpast⟩ := forall_suffix_cons.1 hfits
    obtain ⟨halone, hexcludes⟩ := forall_suffix_cons.1 hexcludes
    exact kept_act (ready_afterAll hready hpast) he (ih hpast hexcludes) halone

/-- **The file guards a single instance as far as processes can be signalled.**  A process that asks for it
is answered by what runs on the host iff the number in the file, if there is one, can be asked for and
can be signalled just when a process with it runs; giving the file back does not fail iff the number
can be asked for.  And all along a run nobody takes the file while another holds it iff everybody who
asks can signal those who hold it then. -/
theorem single_instance_iff (hready : host.Ready p) (hnew : host.holders = [])
    (hfits : ∀ e earlier, e :: earlier <:+ past → e.Fits (afterAll (Act.act p) host earlier)) :
    let h := afterAll (Act.act p) host past
    (∀ ps, h.SeenBy ps →
      ((∃ taken h', Completes ((Act.acquires ps).act p) h taken h' ∧
          (taken = true ↔ ¬ h.NamesLive p)) ↔
        ∀ n, holder? h.disk p = some n →
          ps.CanAsk n ∧ (ps.Reaches n ↔ 0 < n ∧ n ∈ h.running)) ∧
      (isClean ((Act.releases ps).act p) h = true ↔
        ∀ n, holder? h.disk p = some n → ps.CanAsk n)) ∧
    ((∀ e earlier, e :: earlier <:+ past → e.Excludes p (afterAll (Act.act p) host earlier)) ↔
      ∀ e earlier, e :: earlier <:+ past → e.Reaches (afterAll (Act.act p) host earlier)) := by
  intro h
  refine ⟨fun ps hseen =>
    ⟨answers_iff (ready_afterAll hready hfits) hseen, isClean_releases_iff⟩, ?_⟩
  clear h
  induction past with
  | nil => exact iff_of_true forall_suffix_nil forall_suffix_nil
  | cons e past ih =>
    obtain ⟨he, hpast⟩ := forall_suffix_cons.1 hfits
    rw [forall_suffix_cons, forall_suffix_cons, ← ih hpast]
    refine and_congr_left fun hexcludes => ?_
    exact excludes_iff (ready_afterAll hready hpast) he (kept_afterAll hready hnew hpast hexcludes)

end Runs

/-- A file in the directory that the system runs in. -/
def guardFile : Path where
  root := ""
  names := ["daemon.pid"]

/-- It names a process that is gone. -/
def stale : Host where
  disk := { nodes := [(["daemon.pid"], .file "99\n".toUTF8)] }
  running := [7]

/-- A process takes it over, another one is refused, and takes it when the first is gone. -/
def takenOver : List Act :=
  [.acquires { own := 88 }, .exits 7, .acquires { own := 88, alive := [7] }, .starts 88,
    .acquires { own := 7 }]

theorem single_instance_iff_takenOver :
    stale.Ready guardFile ∧ stale.holders = [] ∧
      (∀ e earlier, e :: earlier <:+ takenOver →
        e.Fits (afterAll (Act.act guardFile) stale earlier)) ∧
      (afterAll (Act.act guardFile) stale takenOver).holders = [88] ∧
      ∀ e earlier, e :: earlier <:+ takenOver →
        e.Excludes guardFile (afterAll (Act.act guardFile) stale earlier) := by
  have hready : stale.Ready guardFile :=
    ⟨⟨⟨["daemon.pid"], rfl, nofun⟩, rfl⟩, by decide⟩
  have hfits : ∀ e earlier, e :: earlier <:+ takenOver →
      e.Fits (afterAll (Act.act guardFile) stale earlier) := by
    simp only [takenOver, forall_suffix_cons, Act.Fits]
    refine ⟨⟨by decide +kernel, fun n _ => ?_⟩, trivial, ⟨by decide +kernel, fun n _ => ?_⟩,
      by decide +kernel, ⟨by decide +kernel, fun n _ => ?_⟩, forall_suffix_nil⟩
    · simp [Processes.Sees, Processes.Reaches, show (afterAll (Act.act guardFile) stale
        [.exits 7, .acquires { own := 88, alive := [7] }, .starts 88,
          .acquires { own := 7 }]).running = [88] by decide +kernel]
    · simp [Processes.Sees, Processes.Reaches, show (afterAll (Act.act guardFile) stale
        [.starts 88, .acquires { own := 7 }]).running = [88, 7] by decide +kernel]
    · simp [Processes.Sees, Processes.Reaches, stale, afterAll]
  have hreaches : ∀ e earlier, e :: earlier <:+ takenOver →
      e.Reaches (afterAll (Act.act guardFile) stale earlier) := by
    simp only [takenOver, forall_suffix_cons, Act.Reaches]
    exact ⟨by decide +kernel, trivial, by decide +kernel, trivial, by decide +kernel,
      forall_suffix_nil⟩
  exact ⟨hready, rfl, hfits, by decide +kernel,
    (single_instance_iff hready rfl hfits).2.2 hreaches⟩

/-- A process and one of another user, on a host where nobody has asked for the file. -/
def ofTwoUsers : Host where
  disk := {}
  running := [88, 7]

/-- The first of them takes the file, and the other one, which cannot signal it, takes it as well. -/
theorem taken_from_other_user :
    let h := afterAll (Act.act guardFile) ofTwoUsers [.acquires { own := 88, denied := [7] }]
    let e := Act.acquires { own := 7, denied := [88] }
    h.Ready guardFile ∧ e.Fits h ∧ h.holders = [88] ∧ h.NamesLive guardFile ∧
      ¬ e.Excludes guardFile h := by
  intro h e
  have hstart : ofTwoUsers.Ready guardFile := ⟨⟨⟨["daemon.pid"], rfl, nofun⟩, rfl⟩, by decide⟩
  have hfirst : (Act.acquires { own := 88, denied := [7] }).Fits ofTwoUsers :=
    ⟨by decide, fun n _ => by simp [Processes.Sees, Processes.Reaches, ofTwoUsers]⟩
  have hrunning : h.running = [88, 7] := by decide +kernel
  have hholders : h.holders = [88] := by decide +kernel
  have hholder : holder? h.disk guardFile = some 88 := by decide +kernel
  have htaken : Completes (e.act guardFile) h true (after (e.act guardFile) h) :=
    completes_of_outcome (by decide +kernel)
  refine ⟨ready_act hstart hfirst, ⟨by rw [hrunning]; decide, fun n _ => ?_⟩, hholders,
    ⟨88, hholder, by decide, by rw [hrunning]; decide⟩, fun hexcludes => ?_⟩
  · rw [hrunning]
    simp [Processes.Sees, Processes.Reaches, or_comm]
  · have h88 := hexcludes ⟨_, htaken⟩ 88 (by rw [hholders]; exact List.mem_singleton_self 88)
    exact absurd h88 (by decide)

end PidFile

end BatteryMonitor
