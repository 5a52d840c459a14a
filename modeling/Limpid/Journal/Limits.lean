import Limpid.Journal.Resume

/-!
# Where the journal input falls short

The entry that a start skips is the first one from the cursor on.  The cursor is that of an entry
whose ack has fired, whatever moves led there (`State.CursorsAcked`), so the entry that is skipped
has been acked as long as it is the entry of the cursor; when that has been vacuumed it need not be,
and then the cursor may be saved past it (`skip_needs_fine`).

A shutdown joins the reader without taking anything more from the channel.  So it does not end when
the reader waits for room in a full channel, and it can end otherwise (`shutdown_ends_iff`).
-/

namespace Limpid.Journal

variable {lib : Libsystemd}

/-! ## The skip of a start -/

/-- Before the skip nothing has been read, and the cursor is the saved one. -/
def State.AtCursor (s : State) : Prop :=
  ∀ r, s.run = some r → r.phase = .skip →
    s.saved = some r.location ∧ r.channel = [] ∧ r.inflight = [] ∧ r.acks = []

theorem State.AtCursor.of_phase {s : State} {r : Running} (hrun : s.run = some r)
    (hphase : r.phase ≠ .skip) : s.AtCursor := by
  intro r' hrun' hskip
  rw [hrun] at hrun'
  obtain rfl := Option.some.inj hrun'
  exact absurd hskip hphase

theorem State.AtCursor.of_none {s : State} (hrun : s.run = none) : s.AtCursor := by
  intro r hrun'
  rw [hrun] at hrun'
  cases hrun'

variable (lib) in
theorem atCursor_start (s : State) (loadFailed seekFailed : Bool) (anchor : Anchor) :
    (s.start lib loadFailed seekFailed anchor).AtCursor := by
  unfold State.start
  dsimp only
  split
  · next cursor hcursor =>
    split
    · exact .of_phase rfl (by simp)
    · intro r hrun _
      obtain rfl := Option.some.inj hrun
      cases loadFailed with
      | true => cases hcursor
      | false => exact ⟨hcursor, rfl, rfl, rfl⟩
  · exact .of_phase rfl (by simp)

variable (lib) in
theorem atCursor_read (s : State) (r : Running) (failed : Bool) (reading : Reading) :
    (s.read lib r failed reading).AtCursor := by
  unfold State.read
  split
  · exact .of_phase rfl (by simp [Running.moveTo])
  · split
    · exact .of_phase rfl (by simp [Running.moveTo])
    · dsimp only
      split <;> exact .of_phase rfl (by simp [Running.moveTo])

theorem State.saveCursor_run (s : State) (entry : Entry) (written : Bool) :
    (s.saveCursor entry written).run = s.run := by
  unfold State.saveCursor
  split <;> rfl

theorem State.AtCursor.step {s t : State} (h : s.AtCursor) {move : Move}
    (hstep : s.step lib move = some t) : t.AtCursor := by
  cases move with
  | append =>
      obtain rfl := Option.some.inj hstep
      exact h
  | vacuum head =>
      obtain rfl := Option.some.inj hstep
      exact h
  | crash =>
      obtain rfl := Option.some.inj hstep
      exact .of_none rfl
  | start loadFailed seekFailed anchor =>
      by_cases hrun : s.run = none
      · rw [State.step, if_pos hrun] at hstep
        obtain rfl := Option.some.inj hstep
        exact atCursor_start lib s loadFailed seekFailed anchor
      · rw [State.step, if_neg hrun] at hstep
        cases hstep
  | skip failed =>
      obtain ⟨r, hrun, hstep⟩ := Option.bind_eq_some_iff.mp hstep
      split at hstep
      · obtain rfl := Option.some.inj hstep
        unfold State.skip
        split
        · exact .of_phase rfl (by simp [Running.moveTo])
        · split <;> exact .of_phase rfl (by simp [Running.moveTo])
      · cases hstep
  | look =>
      obtain ⟨r, hrun, hstep⟩ := Option.bind_eq_some_iff.mp hstep
      split at hstep
      · obtain rfl := Option.some.inj hstep
        refine .of_phase rfl ?_
        dsimp only
        split <;> simp
      · cases hstep
  | read failed reading =>
      obtain ⟨r, hrun, hstep⟩ := Option.bind_eq_some_iff.mp hstep
      split at hstep
      · obtain rfl := Option.some.inj hstep
        exact atCursor_read lib s r failed reading
      · cases hstep
  | push =>
      obtain ⟨r, hrun, hstep⟩ := Option.bind_eq_some_iff.mp hstep
      split at hstep
      · unfold State.push at hstep
        split at hstep
        · obtain rfl := Option.some.inj hstep
          exact .of_phase rfl (by simp)
        · cases hstep
      · cases hstep
  | emit sent =>
      obtain ⟨r, hrun, hstep⟩ := Option.bind_eq_some_iff.mp hstep
      by_cases hphase : r.phase = .skip
      · -- the channel is empty
        obtain ⟨-, hchannel, -⟩ := h r hrun hphase
        simp [State.emit, hchannel] at hstep
      · split at hstep
        · cases hstep
        · unfold State.emit at hstep
          split at hstep
          · cases hstep
          · split at hstep
            all_goals
              obtain rfl := Option.some.inj hstep
              exact .of_phase rfl hphase
  | ack index =>
      obtain ⟨r, hrun, hstep⟩ := Option.bind_eq_some_iff.mp hstep
      by_cases hphase : r.phase = .skip
      · obtain ⟨-, -, hinflight, -⟩ := h r hrun hphase
        simp [State.ack, hinflight] at hstep
      · unfold State.ack at hstep
        split at hstep
        · cases hstep
        · obtain rfl := Option.some.inj hstep
          exact .of_phase rfl hphase
  | save index written =>
      obtain ⟨r, hrun, hstep⟩ := Option.bind_eq_some_iff.mp hstep
      by_cases hphase : r.phase = .skip
      · obtain ⟨-, -, -, hacks⟩ := h r hrun hphase
        simp [State.save, hacks] at hstep
      · split at hstep
        · cases hstep
        · unfold State.save at hstep
          split at hstep
          · cases hstep
          · obtain rfl := Option.some.inj hstep
            exact .of_phase (State.saveCursor_run _ _ _) hphase
  | stop =>
      obtain ⟨r, hrun, hstep⟩ := Option.bind_eq_some_iff.mp hstep
      split at hstep
      · cases hstep
      · obtain rfl := Option.some.inj hstep
        intro r' hrun' hphase
        obtain rfl := Option.some.inj hrun'
        exact h r hrun hphase
  | finish written =>
      obtain ⟨r, hrun, hstep⟩ := Option.bind_eq_some_iff.mp hstep
      split at hstep
      · obtain rfl := Option.some.inj hstep
        unfold State.finish
        split
        · exact .of_none rfl
        · exact .of_none (State.saveCursor_run _ _ _)
      · cases hstep

/-- The entries of a run that have been read. -/
def Running.entries (r : Running) : List Entry := r.acks ++ r.inflight ++ r.waiting

/-- A cursor is that of its entry, and the saved one is that of an entry whose ack has fired. -/
structure State.CursorsAcked (s : State) : Prop where
  saved : ∀ c, s.saved = some c → c ∈ s.history.acked
  cursor : ∀ r, s.run = some r → ∀ entry ∈ r.entries, ∀ c, entry.cursor = some c →
    c = entry.position
  acks : ∀ r, s.run = some r → ∀ entry ∈ r.acks, entry.position ∈ s.history.acked

/-- A step that saves nothing and takes in no entry. -/
theorem State.CursorsAcked.keep {s t : State} (h : s.CursorsAcked) {r : Running}
    (hrun : s.run = some r) (hsaved : t.saved = s.saved)
    (hacked : s.history.acked ⊆ t.history.acked)
    (hentries : ∀ r', t.run = some r' → r'.entries ⊆ r.entries ∧
      ∀ entry ∈ r'.acks, entry.position ∈ t.history.acked) : t.CursorsAcked where
  saved := fun c hc => hacked (h.saved c (hsaved ▸ hc))
  cursor := fun r' hrun' entry hentry => h.cursor r hrun entry ((hentries r' hrun').1 hentry)
  acks := fun r' hrun' => (hentries r' hrun').2

/-- Without a run there is nothing but the saved cursor. -/
theorem State.CursorsAcked.of_none {s : State} (hrun : s.run = none)
    (hsaved : ∀ c, s.saved = some c → c ∈ s.history.acked) : s.CursorsAcked where
  saved := hsaved
  cursor := fun r hrun' => absurd (hrun.symm.trans hrun') (Option.some_ne_none r).symm
  acks := fun r hrun' => absurd (hrun.symm.trans hrun') (Option.some_ne_none r).symm

/-- The reader moves on with nothing in its hand. -/
theorem State.CursorsAcked.moveTo {s t : State} (h : s.CursorsAcked) {r : Running}
    (hrun : s.run = some r) (hhand : r.phase.hand = []) {location : ℕ} {phase : Phase}
    (hmoved : t.run = some (r.moveTo location phase)) (hsaved : t.saved = s.saved)
    (hacked : t.history.acked = s.history.acked)
    (hcursor : ∀ entry ∈ phase.hand, ∀ c, entry.cursor = some c → c = entry.position) :
    t.CursorsAcked where
  saved := fun c hc => hacked ▸ h.saved c (hsaved ▸ hc)
  cursor := by
    intro r' hrun' entry hentry c hc
    rw [hmoved] at hrun'
    obtain rfl := Option.some.inj hrun'
    have hold := h.cursor r hrun entry
    simp only [Running.entries, Running.waiting, Running.moveTo, hhand, List.append_nil,
      List.mem_append] at hentry hold
    rcases hentry with (hentry | hentry) | hentry | hentry
    · exact hold (.inl (.inl hentry)) c hc
    · exact hold (.inl (.inr hentry)) c hc
    · exact hold (.inr hentry) c hc
    · exact hcursor entry hentry c hc
  acks := by
    intro r' hrun' entry hentry
    rw [hmoved] at hrun'
    obtain rfl := Option.some.inj hrun'
    exact hacked ▸ h.acks r hrun entry hentry

theorem State.CursorsAcked.moveToTop {s t : State} (h : s.CursorsAcked) {r : Running}
    (hrun : s.run = some r) (hhand : r.phase.hand = []) {location : ℕ}
    (hmoved : t.run = some (r.moveTo location .top)) (hsaved : t.saved = s.saved)
    (hacked : t.history.acked = s.history.acked) : t.CursorsAcked :=
  h.moveTo hrun hhand hmoved hsaved hacked fun _ hmem => absurd hmem List.not_mem_nil

/-- Saving the cursor of an entry whose ack has fired. -/
theorem State.CursorsAcked.saveCursor {s : State} (h : s.CursorsAcked) {entry : Entry}
    (hcursor : ∀ c, entry.cursor = some c → c = entry.position)
    (hacked : entry.position ∈ s.history.acked) (written : Bool) :
    (s.saveCursor entry written).CursorsAcked := by
  unfold State.saveCursor
  split
  · refine ⟨fun c hc => ?_, h.cursor, h.acks⟩
    rw [hcursor c hc]
    exact hacked
  · exact h

theorem Running.mem_entries_of_mem_acks {r : Running} {entry : Entry} (h : entry ∈ r.acks) :
    entry ∈ r.entries :=
  List.mem_append_left _ (List.mem_append_left _ h)

theorem State.CursorsAcked.start {s : State} (h : s.CursorsAcked) (loadFailed seekFailed : Bool)
    (anchor : Anchor) : (s.start lib loadFailed seekFailed anchor).CursorsAcked := by
  have hfresh : ∀ (history : History) (phase : Phase) (location : ℕ), phase.hand = [] →
      history.acked = s.history.acked →
      State.CursorsAcked { s with run := some { phase, location }, history } := by
    intro history phase location hhand hacked
    refine ⟨fun c hc => hacked ▸ h.saved c hc, ?_, ?_⟩
    · intro r hrun entry hentry
      obtain rfl := Option.some.inj hrun
      simp [Running.entries, Running.waiting, hhand] at hentry
    · intro r hrun entry hentry
      obtain rfl := Option.some.inj hrun
      cases hentry
  unfold State.start
  dsimp only
  split
  · split
    · exact hfresh _ _ _ rfl rfl
    · exact hfresh _ _ _ rfl rfl
  · exact hfresh _ _ _ rfl rfl

theorem State.CursorsAcked.skip {s : State} (h : s.CursorsAcked) {r : Running}
    (hrun : s.run = some r) (hphase : r.phase = .skip) (failed : Bool) :
    (s.skip lib r failed).CursorsAcked := by
  have hhand : r.phase.hand = [] := by rw [hphase]; rfl
  unfold State.skip
  split
  · exact h.moveToTop hrun hhand rfl rfl rfl
  · split
    · exact h.moveToTop hrun hhand rfl rfl rfl
    · exact h.moveToTop hrun hhand rfl rfl rfl

theorem State.CursorsAcked.read {s : State} (h : s.CursorsAcked) {r : Running}
    (hrun : s.run = some r) (hphase : r.phase = .next) (failed : Bool) (reading : Reading) :
    (s.read lib r failed reading).CursorsAcked := by
  have hhand : r.phase.hand = [] := by rw [hphase]; rfl
  unfold State.read
  split
  · exact h.moveToTop hrun hhand rfl rfl rfl
  · split
    · exact h.moveToTop hrun hhand rfl rfl rfl
    · dsimp only
      split
      · next entry hentry =>
        refine h.moveTo hrun hhand rfl rfl rfl fun entry' hmem => ?_
        obtain rfl := List.mem_singleton.mp hmem
        exact (Reading.entry_eq_some hentry).2
      · exact h.moveToTop hrun hhand rfl rfl rfl

theorem State.CursorsAcked.emit {s t : State} (h : s.CursorsAcked) {r : Running}
    (hrun : s.run = some r) {sent : Bool} (hemit : s.emit r sent = some t) : t.CursorsAcked := by
  unfold State.emit at hemit
  split at hemit
  · cases hemit
  · next entry channel hchannel =>
    split at hemit
    all_goals
      obtain rfl := Option.some.inj hemit
      refine h.keep hrun rfl (List.Subset.refl _) fun r' hrun' => ?_
      obtain rfl := Option.some.inj hrun'
      refine ⟨fun entry' hentry' => ?_, h.acks r hrun⟩
      simp only [Running.entries, Running.waiting, hchannel, List.mem_append,
        List.mem_cons] at hentry' ⊢
      grind

theorem State.CursorsAcked.ack {s t : State} (h : s.CursorsAcked) {r : Running}
    (hrun : s.run = some r) {index : ℕ} (hack : s.ack r index = some t) : t.CursorsAcked := by
  unfold State.ack at hack
  split at hack
  · cases hack
  · next entry hindex =>
    obtain rfl := Option.some.inj hack
    refine h.keep hrun rfl (List.subset_append_left _ _) fun r' hrun' => ?_
    obtain rfl := Option.some.inj hrun'
    refine ⟨fun entry' hentry' => ?_, fun entry' hentry' => ?_⟩
    · have hentry : entry ∈ r.inflight := List.mem_of_getElem? hindex
      have herase : r.inflight.eraseIdx index ⊆ r.inflight := (List.eraseIdx_sublist _ _).subset
      simp only [Running.entries, Running.waiting, List.mem_append, List.mem_singleton]
        at hentry' ⊢
      rcases hentry' with ((hentry' | rfl) | hentry') | hentry'
      · exact .inl (.inl hentry')
      · exact .inl (.inr hentry)
      · exact .inl (.inr (herase hentry'))
      · exact .inr hentry'
    · rcases List.mem_append.mp hentry' with hold | hnew
      · exact List.mem_append_left _ (h.acks r hrun entry' hold)
      · rw [List.mem_singleton.mp hnew]
        exact List.mem_append_right _ (List.mem_singleton_self _)

theorem State.CursorsAcked.save {s t : State} (h : s.CursorsAcked) {r : Running}
    (hrun : s.run = some r) {index : ℕ} {written : Bool} (hsave : s.save r index written = some t) :
    t.CursorsAcked := by
  unfold State.save at hsave
  split at hsave
  · cases hsave
  · next entry hindex =>
    obtain rfl := Option.some.inj hsave
    have hentry : entry ∈ r.acks := List.mem_of_getElem? hindex
    have hrest : State.CursorsAcked
        { s with run := some { r with acks := r.acks.drop (index + 1) } } := by
      refine h.keep hrun rfl (List.Subset.refl _) fun r' hrun' => ?_
      obtain rfl := Option.some.inj hrun'
      refine ⟨fun entry' hentry' => ?_, fun entry' hentry' => ?_⟩
      · simp only [Running.entries, Running.waiting, List.mem_append] at hentry' ⊢
        exact hentry'.imp_left (Or.imp_left List.mem_of_mem_drop)
      · exact h.acks r hrun entry' (List.mem_of_mem_drop hentry')
    exact hrest.saveCursor (h.cursor r hrun entry (Running.mem_entries_of_mem_acks hentry))
      (h.acks r hrun entry hentry) written

theorem State.CursorsAcked.finish {s : State} (h : s.CursorsAcked) {r : Running}
    (hrun : s.run = some r) (written : Bool) : (s.finish r written).CursorsAcked := by
  have hnone : State.CursorsAcked { s with run := none } := .of_none rfl h.saved
  unfold State.finish
  split
  · exact hnone
  · next entry hlast =>
    have hentry : entry ∈ r.acks := List.mem_of_getLast? hlast
    exact hnone.saveCursor (h.cursor r hrun entry (Running.mem_entries_of_mem_acks hentry))
      (h.acks r hrun entry hentry) written

theorem State.CursorsAcked.step {s t : State} (h : s.CursorsAcked) {move : Move}
    (hstep : s.step lib move = some t) : t.CursorsAcked := by
  cases move with
  | append =>
      obtain rfl := Option.some.inj hstep
      exact { h with }
  | vacuum head =>
      obtain rfl := Option.some.inj hstep
      exact { h with }
  | crash =>
      obtain rfl := Option.some.inj hstep
      exact .of_none rfl h.saved
  | start loadFailed seekFailed anchor =>
      by_cases hrun : s.run = none
      · rw [State.step, if_pos hrun] at hstep
        obtain rfl := Option.some.inj hstep
        exact h.start loadFailed seekFailed anchor
      · rw [State.step, if_neg hrun] at hstep
        cases hstep
  | skip failed =>
      obtain ⟨r, hrun, hstep⟩ := Option.bind_eq_some_iff.mp hstep
      split at hstep
      · next hphase =>
        obtain rfl := Option.some.inj hstep
        exact h.skip hrun hphase failed
      · cases hstep
  | look =>
      -- nothing is read or saved
      obtain ⟨r, hrun, hstep⟩ := Option.bind_eq_some_iff.mp hstep
      split at hstep
      · next hphase =>
        obtain rfl := Option.some.inj hstep
        have hhand : r.phase.hand = [] := by rw [hphase]; rfl
        have hmoved : (s.look r).run =
            some (r.moveTo r.location (if r.stopped then .ended else .next)) := rfl
        refine h.moveTo hrun hhand hmoved rfl rfl fun entry hentry => ?_
        split at hentry <;> cases hentry
      · cases hstep
  | read failed reading =>
      obtain ⟨r, hrun, hstep⟩ := Option.bind_eq_some_iff.mp hstep
      split at hstep
      · next hphase =>
        obtain rfl := Option.some.inj hstep
        exact h.read hrun hphase failed reading
      · cases hstep
  | push =>
      -- the entry goes from the hand of the reader into the channel
      obtain ⟨r, hrun, hstep⟩ := Option.bind_eq_some_iff.mp hstep
      split at hstep
      · next entry hphase =>
        unfold State.push at hstep
        split at hstep
        · obtain rfl := Option.some.inj hstep
          refine h.keep hrun rfl (List.Subset.refl _) fun r' hrun' => ?_
          obtain rfl := Option.some.inj hrun'
          refine ⟨fun entry' hentry' => ?_, h.acks r hrun⟩
          simpa [Running.entries, Running.waiting, hphase, Phase.hand] using hentry'
        · cases hstep
      · cases hstep
  | emit sent =>
      obtain ⟨r, hrun, hstep⟩ := Option.bind_eq_some_iff.mp hstep
      split at hstep
      · cases hstep
      · exact h.emit hrun hstep
  | ack index =>
      obtain ⟨r, hrun, hstep⟩ := Option.bind_eq_some_iff.mp hstep
      exact h.ack hrun hstep
  | save index written =>
      obtain ⟨r, hrun, hstep⟩ := Option.bind_eq_some_iff.mp hstep
      split at hstep
      · cases hstep
      · exact h.save hrun hstep
  | stop =>
      obtain ⟨r, hrun, hstep⟩ := Option.bind_eq_some_iff.mp hstep
      split at hstep
      · cases hstep
      · obtain rfl := Option.some.inj hstep
        refine h.keep hrun rfl (List.Subset.refl _) fun r' hrun' => ?_
        obtain rfl := Option.some.inj hrun'
        exact ⟨List.Subset.refl _, h.acks r hrun⟩
  | finish written =>
      obtain ⟨r, hrun, hstep⟩ := Option.bind_eq_some_iff.mp hstep
      split at hstep
      · obtain rfl := Option.some.inj hstep
        exact h.finish hrun written
      · cases hstep

section Reached

variable {fine : State → Move → Prop} {s : State}

theorem atCursor_of_reach (h : Reach lib fine s) : s.AtCursor :=
  h.invariant State.AtCursor (.of_none rfl) fun _ _ _ hs _ hstep => hs.step hstep

theorem cursorsAcked_of_reach (h : Reach lib fine s) : s.CursorsAcked := by
  refine h.invariant State.CursorsAcked ?_ fun _ _ _ hs _ hstep => hs.step hstep
  exact .of_none rfl fun c hc => by cases hc

/-- **The skip is right as long as the entry of the cursor is there.**  What a skip passes over has
been acked, unless the entry of the cursor has been vacuumed. -/
theorem vacuumed_of_skip (h : Reach lib fine s) {r : Running} (hrun : s.run = some r)
    (hphase : r.phase = .skip) {e : ℕ} (hfind : lib.next s.head s.tail r.location = some e)
    (hnot : ¬s.history.Settled e) : s.saved = some r.location ∧ r.location < s.head := by
  obtain ⟨hsaved, -⟩ := atCursor_of_reach h r hrun hphase
  refine ⟨hsaved, ?_⟩
  by_contra hthere
  obtain ⟨hposition, -⟩ := Libsystemd.next_eq_some hfind
  have he : e = r.location := by omega
  exact hnot (.inl (he ▸ (cursorsAcked_of_reach h).saved _ hsaved))

end Reached

variable (lib) in
/-- What is left after the skip of `e` and the reading of the next entry. -/
theorem readOne_after_skip {s : State} {r : Running} {e : ℕ} (hhead : s.head ≤ e)
    (htail : e < s.tail) (hrun : s.run = some r) (hphase : r.phase = .top)
    (hlocation : r.location = e + 1) (hstopped : r.stopped = false) (hchannel : r.channel = [])
    (hinflight : r.inflight = []) (hacks : r.acks = []) :
    ∃ t, readOne.foldlM (State.step lib) s = some t ∧ t.saved = some (e + 1) ∧
      t.history.firstStart = s.history.firstStart ∧
      t.history.acked = s.history.acked ++ [e + 1] ∧
      t.history.unreadable = s.history.unreadable := by
  obtain ⟨head, tail, saved, run, history⟩ := s
  obtain ⟨phase, location, channel, stopped, refused, inflight, acks, events⟩ := r
  subst hrun hphase hlocation hstopped hchannel hinflight hacks
  dsimp only at hhead htail
  have hfirst : max (e + 1) head = e + 1 := max_eq_left (by omega)
  have hbelow : head < tail + 1 := by omega
  have hnothing : head - (e + 1) = 0 := by omega
  refine ⟨⟨head, tail + 1, some (e + 1),
    some { phase := .top, location := e + 2, refused, events := events ++ [e + 1] },
    { history with
      emitted := history.emitted ++ [e + 1], acked := history.acked ++ [e + 1] }⟩, ?_, rfl, rfl,
    rfl, rfl⟩
  simp [readOne, State.step, State.look, State.read, Libsystemd.next_eq, State.passOver, Reading.entry,
    Running.moveTo, State.push, channelCapacity, State.emit, State.ack, State.save,
    State.saveCursor, hfirst, hnothing, htail, hbelow]

/-- **Otherwise the cursor may be saved past an entry that was never acked.**  In every reachable
state, an entry that a skip would pass over without its being settled is there only because the
entry of the cursor has been vacuumed; and one such skip and the reading of the next entry, with
every call succeeding, are enough. -/
theorem skip_needs_fine {s : State} (h : Reach lib (fun _ _ => True) s) {r : Running}
    (hrun : s.run = some r) (hphase : r.phase = .skip) {e : ℕ}
    (hfind : lib.next s.head s.tail r.location = some e) (hsince : s.history.Since e)
    (hunsettled : ¬s.history.Settled e) :
    (s.saved = some r.location ∧ r.location < s.head) ∧
      (r.stopped = false → ∃ t, (.skip false :: readOne).foldlM (State.step lib) s = some t ∧
        ∃ c, t.saved = some c ∧ t.history.Since e ∧ e ≤ c ∧ ¬t.history.Settled e) := by
  refine ⟨vacuumed_of_skip h hrun hphase hfind hunsettled, fun hstopped => ?_⟩
  obtain ⟨-, hchannel, hinflight, hacks⟩ := atCursor_of_reach h r hrun hphase
  obtain ⟨hposition, hlt⟩ := Libsystemd.next_eq_some hfind
  have hskip : s.step lib (.skip false) = some
      { s.passOver r.location with run := some (r.moveTo (e + 1) .top) } := by
    simp [State.step, State.skip, hrun, hphase, hfind]
  let skipped : State := { s.passOver r.location with run := some (r.moveTo (e + 1) .top) }
  have hhead : skipped.head ≤ e := show s.head ≤ e by omega
  obtain ⟨t, hreads, hsaved, hstart, hacked, hunreadable⟩ :=
    readOne_after_skip lib hhead hlt rfl rfl rfl hstopped hchannel hinflight hacks
  refine ⟨t, ?_, e + 1, hsaved, ?_, Nat.le_succ e, ?_⟩
  · rw [List.foldlM_cons, hskip]
    exact hreads
  · obtain ⟨first, hfirst, hle⟩ := hsince
    exact ⟨first, hstart.trans hfirst, hle⟩
  · rintro (h | h)
    · rw [hacked] at h
      rcases List.mem_append.mp h with hold | hnew
      · exact hunsettled (.inl hold)
      · have heq := List.mem_singleton.mp hnew
        omega
    · rw [hunreadable] at h
      rcases List.mem_append.mp h with hold | hgone
      · exact hunsettled (.inr hold)
      · rw [List.mem_range'_1] at hgone
        omega

/-- The first of two entries has been acked and then vacuumed. -/
def vacuumed : State where
  head := 1
  tail := 2
  saved := some 0
  run := some { phase := .skip, location := 0 }
  history := { firstStart := some 0, emitted := [0], acked := [0] }

theorem reach_vacuumed : Reach documented (fun _ _ => True) vacuumed := by
  have hread : Reach documented (fun _ _ => True) oneRead := reach_oneRead.mono fun _ _ _ => trivial
  exact (((hread.next (m := .append) trivial rfl).next (m := .vacuum 1) trivial rfl).next
    (m := .crash) trivial rfl).next (m := .start false false .anchored) trivial rfl

theorem skip_needs_fine_vacuumed :
    (vacuumed.saved = some 0 ∧ 0 < vacuumed.head) ∧
      ∃ t, (.skip false :: readOne).foldlM (State.step documented) vacuumed = some t ∧
        ∃ c, t.saved = some c ∧ t.history.Since 1 ∧ 1 ≤ c ∧ ¬t.history.Settled 1 := by
  have hunsettled : ¬vacuumed.history.Settled 1 := by
    rintro (h | h)
    · exact absurd h (by decide)
    · cases h
  obtain ⟨hgone, hpast⟩ :=
    skip_needs_fine reach_vacuumed rfl rfl rfl ⟨0, rfl, Nat.zero_le 1⟩ hunsettled
  exact ⟨hgone, hpast rfl⟩

/-! ## The end of a run -/

/-- The reader waits for room in the channel, and the actor takes nothing from it any more. -/
def State.Blocked (s : State) : Prop :=
  ∃ r entry, s.run = some r ∧ r.stopped = true ∧ r.phase = .sending entry ∧
    channelCapacity ≤ r.channel.length

theorem State.Blocked.step {s t : State} (h : s.Blocked) {move : Move} (hmove : move ≠ .crash)
    (hstep : s.step lib move = some t) : t.Blocked := by
  obtain ⟨r, entry, hrun, hstopped, hphase, hfull⟩ := h
  cases move with
  | append =>
      obtain rfl := Option.some.inj hstep
      exact ⟨r, entry, hrun, hstopped, hphase, hfull⟩
  | vacuum head =>
      obtain rfl := Option.some.inj hstep
      exact ⟨r, entry, hrun, hstopped, hphase, hfull⟩
  | crash => exact absurd rfl hmove
  | start loadFailed seekFailed anchor => simp [State.step, hrun] at hstep
  | skip failed => simp [State.step, hrun, hphase] at hstep
  | look => simp [State.step, hrun, hphase] at hstep
  | read failed reading => simp [State.step, hrun, hphase] at hstep
  | push => simp [State.step, State.push, hrun, hphase, Nat.not_lt.mpr hfull] at hstep
  | emit sent => simp [State.step, hrun, hstopped] at hstep
  | ack index =>
      -- the pipeline goes on, but takes nothing from the channel
      rw [State.step, hrun, Option.bind_some] at hstep
      unfold State.ack at hstep
      split at hstep
      · cases hstep
      · obtain rfl := Option.some.inj hstep
        exact ⟨_, entry, rfl, hstopped, hphase, hfull⟩
  | save index written => simp [State.step, hrun, hstopped] at hstep
  | stop => simp [State.step, hrun, hstopped] at hstep
  | finish written => simp [State.step, hrun, hphase] at hstep

/-- A state from which the run ends without a crash. -/
def State.Ends (lib : Libsystemd) (s : State) : Prop :=
  ∃ t, Reached (fun s move t => s.step lib move = some t) (fun _ move => move ≠ .crash) s t ∧
    t.run = none

theorem State.Ends.of_step {s t : State} (h : t.Ends lib) {move : Move} (hmove : move ≠ .crash)
    (hstep : s.step lib move = some t) : s.Ends lib := by
  obtain ⟨u, hreach, hnone⟩ := h
  have hfirst : Reached (fun s move t => s.step lib move = some t) (fun _ move => move ≠ .crash) s t :=
    Reached.start.next hmove hstep
  exact ⟨u, hfirst.trans hreach, hnone⟩

theorem ends_of_ended {s : State} {r : Running} (hrun : s.run = some r)
    (hstopped : r.stopped = true) (hphase : r.phase = .ended) : s.Ends lib := by
  refine ⟨s.finish r false, Reached.start.next (m := .finish false) (by simp) ?_, ?_⟩
  · simp [State.step, hrun, hstopped, hphase]
  · unfold State.finish
    split <;> rfl

theorem ends_of_top {s : State} {r : Running} (hrun : s.run = some r)
    (hstopped : r.stopped = true) (hphase : r.phase = .top) : s.Ends lib := by
  have hlook : s.step lib .look = some (s.look r) := by simp [State.step, hrun, hphase]
  refine State.Ends.of_step ?_ (by simp) hlook
  exact ends_of_ended rfl hstopped (by simp [hstopped])

/-- **When a shutdown ends.**  Once the actor has left its loop, the run can end, whatever the
pipeline and the journal do, exactly when the reader is not waiting for room in a full channel. -/
theorem shutdown_ends_iff {s : State} {r : Running} (hrun : s.run = some r)
    (hstopped : r.stopped = true) :
    s.Ends lib ↔ ¬∃ entry, r.phase = .sending entry ∧ channelCapacity ≤ r.channel.length := by
  constructor
  · rintro ⟨t, hreach, hnone⟩ ⟨entry, hphase, hfull⟩
    have hblocked : t.Blocked := by
      refine hreach.invariant State.Blocked ⟨r, entry, hrun, hstopped, hphase, hfull⟩ ?_
      intro s move t hs hmove hstep
      exact hs.step hmove hstep
    obtain ⟨r', -, hrun', -⟩ := hblocked
    rw [hnone] at hrun'
    cases hrun'
  · intro hroom
    cases hphase : r.phase with
    | ended => exact ends_of_ended hrun hstopped hphase
    | top => exact ends_of_top hrun hstopped hphase
    | skip =>
        have hskip : s.step lib (.skip true) = some (s.skip lib r true) := by
          simp [State.step, hrun, hphase]
        exact (ends_of_top (r := r.moveTo r.location .top) rfl hstopped rfl).of_step (by simp) hskip
    | next =>
        have hread : s.step lib (.read true .whole) = some (s.read lib r true .whole) := by
          simp [State.step, hrun, hphase]
        exact (ends_of_top (r := r.moveTo r.location .top) rfl hstopped rfl).of_step (by simp) hread
    | sending entry =>
        have hlt : r.channel.length < channelCapacity := by
          by_contra hfull
          exact hroom ⟨entry, hphase, Nat.not_lt.mp hfull⟩
        have hpush : s.step lib .push = some { s with
            run := some { r with phase := .top, channel := r.channel ++ [entry] } } := by
          simp [State.step, State.push, hrun, hphase, hlt]
        refine State.Ends.of_step ?_ (by simp) hpush
        exact ends_of_top (r := { r with phase := .top, channel := r.channel ++ [entry] }) rfl
          hstopped rfl

/-- A reader that stands before a full channel. -/
def full : Running where
  phase := .sending ⟨1024, some 1024⟩
  location := 1025
  channel := List.replicate 1024 ⟨0, some 0⟩
  stopped := true

theorem shutdown_ends_iff_full :
    State.Ends documented { run := some full } ↔
      ¬∃ entry, full.phase = .sending entry ∧ channelCapacity ≤ full.channel.length :=
  shutdown_ends_iff rfl rfl

/-! ### A channel that is full -/

/-- A reader that is ahead of the pipeline fills the channel. -/
theorem reach_backlog {n : ℕ} (hn : n ≤ channelCapacity) :
    ∃ s r, Reach lib (State.Fine lib) s ∧ s.run = some r ∧ s.head = 0 ∧ s.tail = n ∧ r.phase = .top ∧
      r.location = n ∧ r.stopped = false ∧ r.channel.length = n := by
  induction n with
  | zero =>
      have hanchored : lib.anchored 0 0 = 0 := lib.anchored_of_le le_rfl
      have hstart : State.step lib {} (.start false false .anchored) = some
          { run := some { phase := .top, location := 0 }, history := { firstStart := some 0 } } := by
        simp [State.step, State.start, State.startAnchored, State.passOver, State.anchorAt,
          hanchored]
      refine ⟨_, { phase := .top, location := 0 },
        Reached.start.next (m := .start false false .anchored) (.inr ?_) hstart, rfl, rfl, rfl,
        rfl, rfl, rfl, rfl⟩
      rintro e ⟨first, hfirst, -⟩
      cases hfirst
  | succ n ih =>
      obtain ⟨s, r, hreach, hrun, hhead, htail, hphase, hlocation, hstopped, hlength⟩ :=
        ih (by omega)
      have hroom : r.channel.length < channelCapacity := by
        rw [hlength]
        omega
      have hmore : [Move.append, .look, .read false .whole, .push].foldlM (State.step lib) s = some
          { s.passOver n with
            tail := n + 1
            run := some { r with
              phase := .top, location := n + 1, channel := r.channel ++ [⟨n, some n⟩] } } := by
        simp [State.step, State.look, State.read, Libsystemd.next_eq, State.passOver, Reading.entry,
          Running.moveTo, State.push, hroom, hrun, hhead, htail, hphase, hlocation, hstopped]
      refine ⟨_, _, reach_moves hreach _ ?_ hmore, rfl, hhead, rfl, rfl, rfl, hstopped, ?_⟩
      · simp [State.Fine]
      · simp [hlength]

/-- A shutdown in the middle of a backlog never ends. -/
theorem reach_blocked : ∃ s, Reach lib (State.Fine lib) s ∧ s.Blocked := by
  obtain ⟨s, r, hreach, hrun, hhead, htail, hphase, hlocation, hstopped, hlength⟩ :=
    reach_backlog le_rfl
  have hmore : [Move.append, .look, .read false .whole, .stop].foldlM (State.step lib) s = some
      { s.passOver channelCapacity with
        tail := channelCapacity + 1
        run := some { r with
          phase := .sending ⟨channelCapacity, some channelCapacity⟩
          location := channelCapacity + 1
          stopped := true } } := by
    simp [State.step, State.look, State.read, Libsystemd.next_eq, State.passOver, Reading.entry,
      Running.moveTo, hrun, hhead, htail, hphase, hlocation, hstopped]
  refine ⟨_, reach_moves hreach _ ?_ hmore, _, _, rfl, rfl, rfl, hlength.ge⟩
  simp [State.Fine]

end Limpid.Journal
