import Mathlib.Data.List.Pairwise
import Mathlib.Data.List.Infix
import Limpid.Journal.Model
import Limpid.Runs

/-!
# The journal input resumes without a gap

An entry is settled when its ack has fired, or when it was gone or unreadable at the time that the
reader came to its place.  Of the entries since the first start the saved cursor never lies past
one that is not settled, and whenever the reader has come to the end of the journal all of them
have become events or were unreadable (`resumes_without_gap`).

Three steps can break this, and `State.Fine` excludes them:

* the skip of a start, when the entry of the cursor has been vacuumed: `seek_cursor` then finds the
  closest entry, which has not been read yet, and it is this one that is skipped;
* a start without a cursor after the first one, which begins at the end of the journal;
* an ack out of order, since the last cursor wins.

The obstacle is that an entry is under way in four places between the reader and the ack.  `waiting`
and `inflight` are these places, and `Running.Inv.covered` says that what is behind the reader is
settled or in one of them.
-/

namespace Limpid.Journal

variable {lib : Libsystemd}

/-! ## The invariant -/

/-- The entries that were appended after the first start. -/
def History.Since (h : History) (e : ℕ) : Prop := ∃ first, h.firstStart = some first ∧ first ≤ e

/-- The entry has been acked, or could not be read. -/
def History.Settled (h : History) (e : ℕ) : Prop := e ∈ h.acked ∨ e ∈ h.unreadable

/-- The condition on a step. -/
def State.Fine (lib : Libsystemd) (s : State) : Move → Prop
  | .start loadFailed seekFailed anchor =>
      (s.saved ≠ none ∧ loadFailed = false ∧ seekFailed = false) ∨
        ∀ e, s.history.Since e → s.head ≤ e → e < s.anchorAt lib anchor → s.history.Settled e
  | .skip failed =>
      failed = true ∨ ∀ r, s.run = some r → ∀ e, lib.next s.head s.tail r.location = some e →
        s.history.Since e → s.history.Settled e
  | .ack index => index = 0
  | _ => True

/-- The entry that the reader is about to send. -/
def Phase.hand : Phase → List Entry
  | .sending entry => [entry]
  | _ => []

/-- What has been read and is not yet an event. -/
def Running.waiting (r : Running) : List Entry := r.refused.toList ++ r.channel ++ r.phase.hand

/-- The positions of entries. -/
def positions (entries : List Entry) : List ℕ := entries.map Entry.position

@[simp] theorem positions_append (first second : List Entry) :
    positions (first ++ second) = positions first ++ positions second := List.map_append

/-- What holds of a run: everything before its location is accounted for. -/
structure Running.Inv (h : History) (tail : ℕ) (r : Running) : Prop where
  started : ∃ first, h.firstStart = some first
  location_le : r.location ≤ tail
  sorted : (r.events ++ positions r.waiting).Pairwise (· < ·)
  behind : ∀ e ∈ r.events ++ positions r.waiting, e < r.location
  suffix : positions (r.acks ++ r.inflight) <:+ r.events
  cursor : ∀ entry ∈ r.acks ++ r.inflight ++ r.waiting, ∀ c, entry.cursor = some c →
    c = entry.position
  acked : ∀ entry ∈ r.acks, entry.position ∈ h.acked
  emitted : ∀ e ∈ r.events, e ∈ h.emitted
  covered : ∀ e, h.Since e → e < r.location →
    h.Settled e ∨ e ∈ positions r.inflight ∨ e ∈ positions r.waiting
  refused : r.stopped = false → r.refused = none

/-- What holds in every state that is reached. -/
structure State.Inv (s : State) : Prop where
  head_le : s.head ≤ s.tail
  saved : ∀ c, s.saved = some c →
    c < s.tail ∧ ∀ e, s.history.Since e → e ≤ c → s.history.Settled e
  run : ∀ r, s.run = some r → r.Inv s.history s.tail
  acked : ∀ e ∈ s.history.acked, e ∈ s.history.emitted

/-! ## History only grows -/

/-- A later history. -/
structure History.Le (h h' : History) : Prop where
  firstStart : h'.firstStart = h.firstStart
  emitted : h.emitted ⊆ h'.emitted
  acked : h.acked ⊆ h'.acked
  unreadable : h.unreadable ⊆ h'.unreadable

theorem History.Le.refl (h : History) : h.Le h := ⟨rfl, fun _ => id, fun _ => id, fun _ => id⟩

theorem History.Le.since {h h' : History} (hle : h.Le h') {e : ℕ} : h'.Since e ↔ h.Since e := by
  unfold History.Since
  rw [hle.firstStart]

theorem History.Le.settled {h h' : History} (hle : h.Le h') {e : ℕ} (hsettled : h.Settled e) :
    h'.Settled e :=
  hsettled.imp (fun h => hle.acked h) (fun h => hle.unreadable h)

theorem Running.Inv.mono {h h' : History} {tail tail' : ℕ} {r : Running} (hr : r.Inv h tail)
    (hle : h.Le h') (htail : tail ≤ tail') : r.Inv h' tail' where
  started := by
    rw [hle.firstStart]
    exact hr.started
  location_le := hr.location_le.trans htail
  sorted := hr.sorted
  behind := hr.behind
  suffix := hr.suffix
  cursor := hr.cursor
  acked := fun entry hmem => hle.acked (hr.acked entry hmem)
  emitted := fun e hmem => hle.emitted (hr.emitted e hmem)
  covered := fun e hsince hlt =>
    (hr.covered e (hle.since.mp hsince) hlt).imp_left hle.settled
  refused := hr.refused

/-- What a step does to the history, the journal and the file when it saves no cursor. -/
theorem State.Inv.update {s : State} (h : s.Inv) {head tail : ℕ} {history : History}
    {run : Option Running} (hhead : head ≤ tail) (htail : s.tail ≤ tail)
    (hle : s.history.Le history) (hrun : ∀ r, run = some r → r.Inv history tail)
    (hacked : ∀ e ∈ history.acked, e ∈ history.emitted) :
    State.Inv { head, tail, saved := s.saved, run, history } where
  head_le := hhead
  saved := by
    intro c hc
    obtain ⟨hlt, hsettled⟩ := h.saved c hc
    refine ⟨hlt.trans_le htail, fun e hsince hle' => ?_⟩
    exact hle.settled (hsettled e (hle.since.mp hsince) hle')
  run := hrun
  acked := hacked

theorem State.passOver_le (s : State) (location : ℕ) :
    s.history.Le (s.passOver location).history :=
  ⟨rfl, fun _ => id, fun _ => id, List.subset_append_left _ _⟩

theorem State.passOver_settled {s : State} {location e : ℕ} (hfrom : location ≤ e)
    (hto : e < s.head) : (s.passOver location).history.Settled e := by
  refine .inr (List.mem_append_right _ ?_)
  rw [List.mem_range'_1]
  omega

/-! ## The reader moves on -/

/-- The reader, with nothing in its hand, moves on and may take an entry into it. -/
theorem Running.Inv.moveTo {h h' : History} {tail : ℕ} {r : Running} (hr : r.Inv h tail)
    (hle : h.Le h') (hhand : r.phase.hand = []) {location : ℕ} {phase : Phase}
    (hfrom : r.location ≤ location) (hto : location ≤ tail)
    (hone : (positions phase.hand).Pairwise (· < ·))
    (htaken : ∀ entry ∈ phase.hand, r.location ≤ entry.position ∧ entry.position < location ∧
      ∀ c, entry.cursor = some c → c = entry.position)
    (hcovered : ∀ e, h.Since e → r.location ≤ e → e < location →
      h'.Settled e ∨ e ∈ positions phase.hand) :
    (r.moveTo location phase).Inv h' tail := by
  have hbefore : r.waiting = r.refused.toList ++ r.channel := by
    rw [Running.waiting, hhand, List.append_nil]
  have hafter : (r.moveTo location phase).waiting = r.waiting ++ phase.hand := by
    rw [hbefore]
    rfl
  have hpositions : ∀ e ∈ positions phase.hand, r.location ≤ e ∧ e < location := by
    intro e he
    obtain ⟨entry, hentry, rfl⟩ := List.mem_map.mp he
    exact ⟨(htaken entry hentry).1, (htaken entry hentry).2.1⟩
  refine ⟨?_, hto, ?_, ?_, hr.suffix, ?_, ?_, ?_, ?_, hr.refused⟩
  · rw [hle.firstStart]
    exact hr.started
  · rw [hafter, positions_append, ← List.append_assoc]
    apply List.pairwise_append.mpr
    refine ⟨hr.sorted, hone, ?_⟩
    intro a ha b hb
    exact (hr.behind a ha).trans_le (hpositions b hb).1
  · rw [hafter, positions_append, ← List.append_assoc]
    intro e he
    rcases List.mem_append.mp he with hold | hnew
    · exact (hr.behind e hold).trans_le hfrom
    · exact (hpositions e hnew).2
  · rw [hafter, ← List.append_assoc]
    intro entry hentry
    rcases List.mem_append.mp hentry with hold | hnew
    · exact hr.cursor entry hold
    · exact (htaken entry hnew).2.2
  · exact fun entry hentry => hle.acked (hr.acked entry hentry)
  · exact fun e he => hle.emitted (hr.emitted e he)
  · intro e hsince hlt
    rw [hle.since] at hsince
    rw [hafter, positions_append]
    rcases Nat.lt_or_ge e r.location with hbehind | hpassed
    · rcases hr.covered e hsince hbehind with h | h | h
      · exact .inl (hle.settled h)
      · exact .inr (.inl h)
      · exact .inr (.inr (List.mem_append_left _ h))
    · rcases hcovered e hsince hpassed hlt with h | h
      · exact .inl h
      · exact .inr (.inr (List.mem_append_right _ h))

/-- What `next` finds is the first entry that is left. -/
theorem Libsystemd.next_eq_some {head tail location position : ℕ}
    (h : lib.next head tail location = some position) :
    position = max location head ∧ position < tail := by
  rw [lib.next_eq] at h
  split at h
  · obtain rfl := Option.some.inj h
    exact ⟨rfl, by assumption⟩
  · cases h

/-- The reader passes over what is gone. -/
theorem State.Inv.atEnd {s : State} (h : s.Inv) {r : Running} (hrun : s.run = some r)
    (hhand : r.phase.hand = []) :
    State.Inv
      { s.passOver r.location with run := some (r.moveTo (max r.location s.head) .top) } := by
  have hr := h.run r hrun
  refine h.update h.head_le le_rfl (s.passOver_le _) ?_ h.acked
  intro r' hr'
  obtain rfl := Option.some.inj hr'
  refine hr.moveTo (s.passOver_le _) hhand (le_max_left _ _) (max_le hr.location_le h.head_le)
    List.Pairwise.nil nofun ?_
  intro e _ hpassed hlt
  exact .inl (State.passOver_settled hpassed (by omega))

theorem State.Inv.skip {s : State} (h : s.Inv) {r : Running} (hrun : s.run = some r)
    (hphase : r.phase = .skip) {failed : Bool} (hfine : s.Fine lib (.skip failed)) :
    (s.skip lib r failed).Inv := by
  have hr := h.run r hrun
  have hhand : r.phase.hand = [] := by rw [hphase]; rfl
  unfold State.skip
  split
  · refine h.update h.head_le le_rfl (.refl _) ?_ h.acked
    intro r' hr'
    obtain rfl := Option.some.inj hr'
    exact hr.moveTo (.refl _) hhand le_rfl hr.location_le List.Pairwise.nil nofun
      (fun e _ hfrom hto => absurd hfrom (Nat.not_le.mpr hto))
  · next hfailed =>
    split
    · next position hfind =>
      obtain ⟨hposition, hlt⟩ := Libsystemd.next_eq_some hfind
      refine h.update h.head_le le_rfl (s.passOver_le _) ?_ h.acked
      intro r' hr'
      obtain rfl := Option.some.inj hr'
      refine hr.moveTo (s.passOver_le _) hhand (by omega) hlt List.Pairwise.nil nofun ?_
      intro e hsince hpassed hbefore
      rcases Nat.lt_or_ge e s.head with hgone | hleft
      · exact .inl (State.passOver_settled hpassed hgone)
      · -- the entry that is skipped
        have heq : e = position := by omega
        rcases hfine with hfailed' | hsettled
        · exact absurd hfailed' hfailed
        · exact .inl ((s.passOver_le _).settled
            (hsettled r hrun e (heq ▸ hfind) hsince))
    · exact h.atEnd hrun hhand

theorem Reading.entry_eq_some {reading : Reading} {position : ℕ} {entry : Entry}
    (h : reading.entry position = some entry) :
    entry.position = position ∧ ∀ c, entry.cursor = some c → c = entry.position := by
  cases reading with
  | whole =>
      obtain rfl := Option.some.inj h
      exact ⟨rfl, fun c hc => (Option.some.inj hc).symm⟩
  | withoutCursor =>
      obtain rfl := Option.some.inj h
      exact ⟨rfl, nofun⟩
  | fieldsFailed => cases h

theorem State.Inv.read {s : State} (h : s.Inv) {r : Running} (hrun : s.run = some r)
    (hphase : r.phase = .next) (failed : Bool) (reading : Reading) :
    (s.read lib r failed reading).Inv := by
  have hr := h.run r hrun
  have hhand : r.phase.hand = [] := by rw [hphase]; rfl
  unfold State.read
  split
  · refine h.update h.head_le le_rfl (.refl _) ?_ h.acked
    intro r' hr'
    obtain rfl := Option.some.inj hr'
    exact hr.moveTo (.refl _) hhand le_rfl hr.location_le List.Pairwise.nil nofun
      (fun e _ hfrom hto => absurd hfrom (Nat.not_le.mpr hto))
  · split
    · exact h.atEnd hrun hhand
    · next position hfind =>
      obtain ⟨hposition, hlt⟩ := Libsystemd.next_eq_some hfind
      dsimp only
      split
      · next entry hentry =>
        obtain ⟨heq, hcursor⟩ := Reading.entry_eq_some hentry
        refine h.update h.head_le le_rfl (s.passOver_le _) ?_ h.acked
        intro r' hr'
        obtain rfl := Option.some.inj hr'
        refine hr.moveTo (s.passOver_le _) hhand (by omega) hlt (List.pairwise_singleton _ _) ?_ ?_
        · intro entry' hmem
          obtain rfl := List.mem_singleton.mp hmem
          exact ⟨by omega, by omega, hcursor⟩
        · intro e _ hpassed hbefore
          rcases Nat.lt_or_ge e s.head with hgone | hleft
          · exact .inl (State.passOver_settled hpassed hgone)
          · exact .inr (List.mem_singleton.mpr (by omega))
      · have hle : s.history.Le { (s.passOver r.location).history with
            unreadable := (s.passOver r.location).history.unreadable ++ [position] } :=
          ⟨rfl, fun _ => id, fun _ => id, fun e he =>
            List.mem_append_left _ ((s.passOver_le r.location).unreadable he)⟩
        refine h.update h.head_le le_rfl hle ?_ h.acked
        intro r' hr'
        obtain rfl := Option.some.inj hr'
        refine hr.moveTo hle hhand (by omega) hlt List.Pairwise.nil nofun ?_
        intro e _ hpassed hbefore
        rcases Nat.lt_or_ge e s.head with hgone | hleft
        · refine .inl ((State.passOver_settled hpassed hgone).imp_right ?_)
          exact fun hmem => List.mem_append_left _ hmem
        · exact .inl (.inr (List.mem_append_right _ (List.mem_singleton.mpr (by omega))))

/-! ## A start -/

theorem Running.Inv.fresh {h : History} {tail location : ℕ} {phase : Phase}
    (hhand : phase.hand = []) (hstarted : ∃ first, h.firstStart = some first)
    (hlocation : location ≤ tail)
    (hcovered : ∀ e, h.Since e → e < location → h.Settled e) :
    Running.Inv h tail { phase, location } where
  started := hstarted
  location_le := hlocation
  sorted := by simp [Running.waiting, hhand, positions]
  behind := by simp [Running.waiting, hhand, positions]
  suffix := List.suffix_refl _
  cursor := by simp [Running.waiting, hhand]
  acked := nofun
  emitted := nofun
  covered := fun e hsince hlt => .inl (hcovered e hsince hlt)
  refused := fun _ => rfl

/-- The first start settles when an entry counts; a later one changes nothing. -/
theorem State.Inv.started {s : State} (h : s.Inv) (hrun : s.run = none) :
    State.Inv { s with history.firstStart := some (s.history.firstStart.getD s.tail) } where
  head_le := h.head_le
  saved := by
    intro c hc
    obtain ⟨hlt, hsettled⟩ := h.saved c hc
    refine ⟨hlt, ?_⟩
    rintro e ⟨first, hfirst, hle⟩ hec
    obtain rfl := Option.some.inj hfirst
    cases hstart : s.history.firstStart with
    | none =>
        rw [hstart, Option.getD_none] at hle
        omega
    | some first =>
        rw [hstart, Option.getD_some] at hle
        exact hsettled e ⟨first, hstart, hle⟩ hec
  run := by
    intro r hr
    rw [hrun] at hr
    cases hr
  acked := h.acked

theorem State.anchorAt_le {s : State} (anchor : Anchor) : s.anchorAt lib anchor ≤ s.tail := by
  cases anchor with
  | anchored =>
      rw [State.anchorAt]
      rcases Nat.lt_or_ge s.head s.tail with hlt | hle
      · exact (lib.anchored_of_lt hlt).le
      · exact (lib.anchored_of_le hle).le.trans (Nat.zero_le _)
  | failed location => exact min_le_right _ _

theorem State.Inv.startAnchored {s : State} (h : s.Inv)
    (hstarted : ∃ first, s.history.firstStart = some first) {anchor : Anchor}
    (hsettled : ∀ e, s.history.Since e → s.head ≤ e → e < s.anchorAt lib anchor →
      s.history.Settled e) : (s.startAnchored lib anchor).Inv := by
  refine h.update h.head_le le_rfl (s.passOver_le _) ?_ h.acked
  intro r hr
  obtain rfl := Option.some.inj hr
  refine .fresh rfl hstarted (State.anchorAt_le anchor) ?_
  intro e hsince hlt
  rcases Nat.lt_or_ge e s.head with hgone | hleft
  · exact State.passOver_settled (Nat.zero_le _) hgone
  · exact (s.passOver_le _).settled (hsettled e hsince hleft hlt)

theorem State.Inv.start {s : State} (h : s.Inv) (hrun : s.run = none) {loadFailed seekFailed : Bool}
    {anchor : Anchor} (hfine : s.Fine lib (.start loadFailed seekFailed anchor)) :
    (s.start lib loadFailed seekFailed anchor).Inv := by
  have hstart := h.started hrun
  -- at the first start the anchor passes over nothing that counts
  have hanchor : (¬(s.saved ≠ none ∧ loadFailed = false ∧ seekFailed = false)) →
      (State.startAnchored lib
        { s with history.firstStart := some (s.history.firstStart.getD s.tail) } anchor).Inv := by
    intro hno
    refine hstart.startAnchored ⟨_, rfl⟩ ?_
    rintro e ⟨first, hfirst, hle⟩ hleft hlt
    obtain rfl := Option.some.inj hfirst
    have htail : s.anchorAt lib anchor ≤ s.tail := State.anchorAt_le anchor
    cases hfirst' : s.history.firstStart with
    | none =>
        rw [hfirst', Option.getD_none] at hle
        exact absurd (Nat.lt_of_lt_of_le hlt htail) (Nat.not_lt.mpr hle)
    | some first =>
        rw [hfirst', Option.getD_some] at hle
        rcases hfine with hcursor | hsettled
        · exact absurd hcursor hno
        · exact hsettled e ⟨first, hfirst', hle⟩ hleft hlt
  unfold State.start
  dsimp only
  split
  · next cursor hcursor =>
    cases loadFailed with
    | true => cases hcursor
    | false =>
      have hsaved : s.saved = some cursor := hcursor
      split
      · next hseek => exact hanchor (by simp [hseek])
      · refine hstart.update h.head_le le_rfl (.refl _) ?_ h.acked
        intro r hr
        obtain rfl := Option.some.inj hr
        obtain ⟨hlt, hsettled⟩ := hstart.saved cursor hsaved
        exact .fresh rfl ⟨_, rfl⟩ hlt.le fun e hsince hbefore =>
          hsettled e hsince hbefore.le
  · next hnone =>
    refine hanchor ?_
    rintro ⟨hsaved, rfl, -⟩
    exact hsaved hnone

/-! ## Moves that leave the reader where it is -/

theorem State.Inv.look {s : State} (h : s.Inv) {r : Running} (hrun : s.run = some r)
    (hphase : r.phase = .top) : (s.look r).Inv := by
  have hr := h.run r hrun
  refine h.update h.head_le le_rfl (.refl _) ?_ h.acked
  intro r' hr'
  obtain rfl := Option.some.inj hr'
  have hnext : (if r.stopped then Phase.ended else Phase.next).hand = [] := by split <;> rfl
  exact hr.moveTo (.refl _) (by rw [hphase]; rfl) le_rfl hr.location_le
    (by rw [hnext]; exact List.Pairwise.nil) (by rw [hnext]; exact nofun)
    (fun e _ hfrom hto => absurd hfrom (Nat.not_le.mpr hto))

/-- An entry goes from the hand of the reader to the channel. -/
theorem State.Inv.push {s t : State} (h : s.Inv) {r : Running} (hrun : s.run = some r)
    {entry : Entry} (hphase : r.phase = .sending entry) (hpush : s.push r entry = some t) :
    t.Inv := by
  have hr := h.run r hrun
  unfold State.push at hpush
  split at hpush
  · obtain rfl := Option.some.inj hpush
    refine h.update h.head_le le_rfl (.refl _) ?_ h.acked
    intro r' hr'
    obtain rfl := Option.some.inj hr'
    have hwaiting : Running.waiting { r with phase := .top, channel := r.channel ++ [entry] } =
        r.waiting := by
      simp [Running.waiting, hphase, Phase.hand]
    refine ⟨hr.started, hr.location_le, ?_, ?_, hr.suffix, ?_, hr.acked, hr.emitted, ?_,
      hr.refused⟩
    · rw [hwaiting]
      exact hr.sorted
    · rw [hwaiting]
      exact hr.behind
    · rw [hwaiting]
      exact hr.cursor
    · rw [hwaiting]
      exact hr.covered
  · cases hpush

/-- An entry goes from the channel into the pipeline, or is refused there. -/
theorem State.Inv.emit {s t : State} (h : s.Inv) {r : Running} (hrun : s.run = some r)
    (hstopped : r.stopped = false) {sent : Bool} (hemit : s.emit r sent = some t) : t.Inv := by
  have hr := h.run r hrun
  have hrefused := hr.refused hstopped
  unfold State.emit at hemit
  cases hchannel : r.channel with
  | nil =>
      rw [hchannel] at hemit
      cases hemit
  | cons entry channel =>
      rw [hchannel] at hemit
      have hwaiting : r.waiting = entry :: (channel ++ r.phase.hand) := by
        simp [Running.waiting, hrefused, hchannel]
      cases sent with
      | false =>
          -- the pipeline is gone: the entry is kept as refused, so what is waiting is what it was
          obtain rfl := Option.some.inj hemit
          refine h.update h.head_le le_rfl (.refl _) ?_ h.acked
          intro r' hr'
          obtain rfl := Option.some.inj hr'
          have hwaiting' : Running.waiting
              { r with channel := channel, refused := some entry, stopped := true } =
              r.waiting := by
            rw [hwaiting]
            rfl
          refine ⟨hr.started, hr.location_le, ?_, ?_, hr.suffix, ?_, hr.acked, hr.emitted, ?_,
            nofun⟩
          · rw [hwaiting']
            exact hr.sorted
          · rw [hwaiting']
            exact hr.behind
          · rw [hwaiting']
            exact hr.cursor
          · rw [hwaiting']
            exact hr.covered
      | true =>
          -- the entry moves from the channel to what is in flight
          obtain rfl := Option.some.inj hemit
          have hle : s.history.Le { s.history with
              emitted := s.history.emitted ++ [entry.position] } :=
            ⟨rfl, List.subset_append_left _ _, fun _ => id, fun _ => id⟩
          refine h.update h.head_le le_rfl hle ?_ ?_
          · intro r' hr'
            obtain rfl := Option.some.inj hr'
            have hwaiting' : Running.waiting { r with
                channel := channel
                inflight := r.inflight ++ [entry]
                events := r.events ++ [entry.position] } = channel ++ r.phase.hand := by
              simp [Running.waiting, hrefused]
            have hline : r.events ++ [entry.position] ++ positions (channel ++ r.phase.hand) =
                r.events ++ positions r.waiting := by
              rw [hwaiting]
              simp [positions]
            refine ⟨hr.started, hr.location_le, ?_, ?_, ?_, ?_, hr.acked, ?_, ?_, hr.refused⟩
            · rw [hwaiting', hline]
              exact hr.sorted
            · rw [hwaiting', hline]
              exact hr.behind
            · obtain ⟨before, hbefore⟩ := hr.suffix
              refine ⟨before, ?_⟩
              rw [← List.append_assoc, positions_append, ← List.append_assoc, hbefore]
              rfl
            · rw [hwaiting']
              intro entry' hmem
              refine hr.cursor entry' ?_
              rw [hwaiting]
              simp only [List.mem_append, List.mem_cons] at hmem ⊢
              tauto
            · intro e he
              rcases List.mem_append.mp he with hold | hnew
              · exact hle.emitted (hr.emitted e hold)
              · exact List.mem_append_right _ hnew
            · rw [hwaiting']
              intro e hsince hlt
              have hold := hr.covered e (hle.since.mp hsince) hlt
              rw [hwaiting] at hold
              simp only [positions, List.map_append, List.map_cons, List.mem_append, List.mem_cons,
                List.map_nil, List.not_mem_nil, or_false] at hold ⊢
              rcases hold with h | h | h | h
              · exact .inl (hle.settled h)
              · exact .inr (.inl (.inl h))
              · exact .inr (.inl (.inr h))
              · exact .inr (.inr h)
          · exact fun e he => List.mem_append_left _ (h.acked e he)

/-- The oldest event under way is acked. -/
theorem State.Inv.ack {s t : State} (h : s.Inv) {r : Running} (hrun : s.run = some r)
    (hack : s.ack r 0 = some t) : t.Inv := by
  have hr := h.run r hrun
  unfold State.ack at hack
  cases hinflight : r.inflight with
  | nil =>
      rw [hinflight] at hack
      cases hack
  | cons entry inflight =>
      rw [hinflight] at hack
      obtain rfl := Option.some.inj hack
      have hle : s.history.Le { s.history with
          acked := s.history.acked ++ [entry.position] } :=
        ⟨rfl, fun _ => id, List.subset_append_left _ _, fun _ => id⟩
      have hline : r.acks ++ [entry] ++ inflight = r.acks ++ r.inflight := by
        rw [hinflight, List.append_assoc]
        rfl
      have hentry : entry.position ∈ r.events := by
        refine hr.suffix.subset ?_
        rw [hinflight]
        exact List.mem_map_of_mem (by simp)
      refine h.update h.head_le le_rfl hle ?_ ?_
      · intro r' hr'
        obtain rfl := Option.some.inj hr'
        refine ⟨hr.started, hr.location_le, hr.sorted, hr.behind, ?_, ?_, ?_, hr.emitted, ?_,
          hr.refused⟩
        · simp only [List.eraseIdx_zero, List.tail_cons, hline]
          exact hr.suffix
        · simp only [List.eraseIdx_zero, List.tail_cons, hline]
          exact hr.cursor
        · intro entry' hmem
          rcases List.mem_append.mp hmem with hold | hnew
          · exact hle.acked (hr.acked entry' hold)
          · rw [List.mem_singleton.mp hnew]
            exact List.mem_append_right _ (List.mem_singleton_self _)
        · intro e hsince hlt
          rcases hr.covered e (hle.since.mp hsince) hlt with h | h | h
          · exact .inl (hle.settled h)
          · rw [hinflight] at h
            rcases List.mem_cons.mp h with rfl | h
            · exact .inl (.inl (List.mem_append_right _ (List.mem_singleton_self _)))
            · exact .inr (.inl h)
          · exact .inr (.inr h)
      · intro e he
        rcases List.mem_append.mp he with hold | hnew
        · exact h.acked e hold
        · rw [List.mem_singleton.mp hnew]
          exact hr.emitted _ hentry

/-! ## The cursor is saved -/

/-- What is not after an acked event is settled. -/
theorem Running.Inv.settled_of_ack {h : History} {tail : ℕ} {r : Running} (hr : r.Inv h tail)
    {entry : Entry} (hentry : entry ∈ r.acks) :
    entry.position < tail ∧ ∀ e, h.Since e → e ≤ entry.position → h.Settled e := by
  obtain ⟨hevents, -, hbefore⟩ := List.pairwise_append.mp hr.sorted
  have hposition : entry.position ∈ positions r.acks := List.mem_map_of_mem hentry
  have hevent : entry.position ∈ r.events := by
    apply hr.suffix.subset
    rw [positions_append]
    exact List.mem_append_left _ hposition
  have hlt := hr.behind _ (List.mem_append_left _ hevent)
  refine ⟨hlt.trans_le hr.location_le, ?_⟩
  intro e hsince hle
  rcases hr.covered e hsince (hle.trans_lt hlt) with h | h | h
  · exact h
  · -- events are acked in order
    have hline := hevents.sublist hr.suffix.sublist
    rw [positions_append] at hline
    have hless := (List.pairwise_append.mp hline).2.2 _ hposition e h
    omega
  · have hless := hbefore _ hevent e h
    omega

theorem State.Inv.saveCursor {s : State} (h : s.Inv) {entry : Entry}
    (hcursor : ∀ c, entry.cursor = some c → c = entry.position)
    (hsettled : entry.position < s.tail ∧
      ∀ e, s.history.Since e → e ≤ entry.position → s.history.Settled e) (written : Bool) :
    (s.saveCursor entry written).Inv := by
  cases written with
  | false => exact h
  | true =>
      refine ⟨h.head_le, ?_, h.run, h.acked⟩
      intro c hc
      rw [hcursor c hc]
      exact hsettled

theorem State.Inv.save {s t : State} (h : s.Inv) {r : Running} (hrun : s.run = some r)
    {index : ℕ} {written : Bool} (hsave : s.save r index written = some t) : t.Inv := by
  have hr := h.run r hrun
  unfold State.save at hsave
  split at hsave
  · cases hsave
  · next entry hindex =>
    obtain rfl := Option.some.inj hsave
    have hentry : entry ∈ r.acks := List.mem_of_getElem? hindex
    have hrest : State.Inv { s with run := some { r with acks := r.acks.drop (index + 1) } } := by
      refine h.update h.head_le le_rfl (.refl _) ?_ h.acked
      intro r' hr'
      obtain rfl := Option.some.inj hr'
      refine ⟨hr.started, hr.location_le, hr.sorted, hr.behind, ?_, ?_, ?_, hr.emitted, hr.covered,
        hr.refused⟩
      · refine List.IsSuffix.trans ?_ hr.suffix
        refine ⟨positions (r.acks.take (index + 1)), ?_⟩
        rw [← positions_append, ← List.append_assoc, List.take_append_drop]
      · intro entry' hmem
        refine hr.cursor entry' ?_
        simp only [List.mem_append] at hmem ⊢
        exact hmem.imp_left (Or.imp_left List.mem_of_mem_drop)
      · exact fun entry' hmem => hr.acked entry' (List.mem_of_mem_drop hmem)
    refine hrest.saveCursor (hr.cursor entry ?_) (hr.settled_of_ack hentry) written
    exact List.mem_append_left _ (List.mem_append_left _ hentry)

theorem State.Inv.crash {s : State} (h : s.Inv) : State.Inv { s with run := none } :=
  h.update h.head_le le_rfl (.refl _) nofun h.acked

theorem State.Inv.finish {s : State} (h : s.Inv) {r : Running} (hrun : s.run = some r)
    (written : Bool) : (s.finish r written).Inv := by
  have hr := h.run r hrun
  unfold State.finish
  split
  · exact h.crash
  · next entry hlast =>
    have hentry : entry ∈ r.acks := List.mem_of_getLast? hlast
    refine h.crash.saveCursor (hr.cursor entry ?_) (hr.settled_of_ack hentry) written
    exact List.mem_append_left _ (List.mem_append_left _ hentry)

theorem State.Inv.stop {s : State} (h : s.Inv) {r : Running} (hrun : s.run = some r) :
    State.Inv { s with run := some { r with stopped := true } } := by
  have hr := h.run r hrun
  refine h.update h.head_le le_rfl (.refl _) ?_ h.acked
  intro r' hr'
  obtain rfl := Option.some.inj hr'
  exact ⟨hr.started, hr.location_le, hr.sorted, hr.behind, hr.suffix, hr.cursor, hr.acked,
    hr.emitted, hr.covered, nofun⟩

/-! ## Runs -/

theorem State.Inv.step {s t : State} (h : s.Inv) {move : Move} (hfine : s.Fine lib move)
    (hstep : s.step lib move = some t) : t.Inv := by
  cases move with
  | append =>
      obtain rfl := Option.some.inj hstep
      exact h.update (h.head_le.trans (Nat.le_succ _)) (Nat.le_succ _) (.refl _)
        (fun r hr => (h.run r hr).mono (.refl _) (Nat.le_succ _)) h.acked
  | vacuum head =>
      obtain rfl := Option.some.inj hstep
      exact h.update (min_le_left _ _) le_rfl (.refl _) h.run h.acked
  | crash =>
      obtain rfl := Option.some.inj hstep
      exact h.crash
  | start loadFailed seekFailed anchor =>
      -- what `Fine` asks of a start is used here, and of a skip below
      by_cases hrun : s.run = none
      · rw [State.step, if_pos hrun] at hstep
        obtain rfl := Option.some.inj hstep
        exact h.start hrun hfine
      · rw [State.step, if_neg hrun] at hstep
        cases hstep
  | skip failed =>
      obtain ⟨r, hrun, hstep⟩ := Option.bind_eq_some_iff.mp hstep
      split at hstep
      · next hphase =>
        obtain rfl := Option.some.inj hstep
        exact h.skip hrun hphase hfine
      · cases hstep
  | look =>
      obtain ⟨r, hrun, hstep⟩ := Option.bind_eq_some_iff.mp hstep
      split at hstep
      · next hphase =>
        obtain rfl := Option.some.inj hstep
        exact h.look hrun hphase
      · cases hstep
  | read failed reading =>
      obtain ⟨r, hrun, hstep⟩ := Option.bind_eq_some_iff.mp hstep
      split at hstep
      · next hphase =>
        obtain rfl := Option.some.inj hstep
        exact h.read hrun hphase failed reading
      · cases hstep
  | push =>
      obtain ⟨r, hrun, hstep⟩ := Option.bind_eq_some_iff.mp hstep
      split at hstep
      · next entry hphase => exact h.push hrun hphase hstep
      · cases hstep
  | emit sent =>
      obtain ⟨r, hrun, hstep⟩ := Option.bind_eq_some_iff.mp hstep
      split at hstep
      · cases hstep
      · next hstopped => exact h.emit hrun (Bool.eq_false_of_not_eq_true hstopped) hstep
  | ack index =>
      -- acks in order: it is the first entry in flight
      obtain ⟨r, hrun, hstep⟩ := Option.bind_eq_some_iff.mp hstep
      obtain rfl : index = 0 := hfine
      exact h.ack hrun hstep
  | save index written =>
      obtain ⟨r, hrun, hstep⟩ := Option.bind_eq_some_iff.mp hstep
      split at hstep
      · cases hstep
      · exact h.save hrun hstep
  | stop =>
      obtain ⟨r, hrun, hstep⟩ := Option.bind_eq_some_iff.mp hstep
      split at hstep
      · cases hstep
      · obtain rfl := Option.some.inj hstep
        exact h.stop hrun
  | finish written =>
      obtain ⟨r, hrun, hstep⟩ := Option.bind_eq_some_iff.mp hstep
      split at hstep
      · obtain rfl := Option.some.inj hstep
        exact h.finish hrun written
      · cases hstep

/-- The states of all runs from before the first start whose moves satisfy a condition. -/
abbrev Reach (lib : Libsystemd) (fine : State → Move → Prop) : State → Prop :=
  Reached (fun s move t => s.step lib move = some t) fine {}

theorem inv_of_reach {s : State} (h : Reach lib (State.Fine lib) s) : s.Inv := by
  refine h.invariant _ ⟨le_rfl, ?_, ?_, ?_⟩ fun _ _ _ hs hfine hstep => hs.step hfine hstep
  · intro c hc
    cases hc
  · intro r hr
    cases hr
  · intro e he
    cases he

/-- The reader has come to the end of the journal, and all that it has read has become events. -/
structure Running.CaughtUp (r : Running) (tail : ℕ) : Prop where
  location : r.location = tail
  waiting : r.waiting = []

/-- **The input resumes without a gap.**  In every run of moves that meet the condition, with
restarts and crashes wherever they come: each entry since the first start that is at or before the
saved cursor has been acked or could not be read; whenever the input has caught up with the journal
each of these entries has become an event, in this run or in an earlier one, or could not be read;
and the events of one run are in the order of the journal, each entry once. -/
theorem resumes_without_gap {s : State} (h : Reach lib (State.Fine lib) s) :
    (∀ c, s.saved = some c → ∀ e, s.history.Since e → e ≤ c →
      e ∈ s.history.acked ∨ e ∈ s.history.unreadable) ∧
      ∀ r, s.run = some r →
        r.events.Pairwise (· < ·) ∧
        (r.CaughtUp s.tail → ∀ e, s.history.Since e → e < s.tail →
          e ∈ s.history.emitted ∨ e ∈ s.history.unreadable) := by
  have hinv := inv_of_reach h
  refine ⟨fun c hc => (hinv.saved c hc).2, ?_⟩
  intro r hrun
  have hr := hinv.run r hrun
  refine ⟨(List.pairwise_append.mp hr.sorted).1, ?_⟩
  rintro ⟨hlocation, hwaiting⟩ e hsince hlt
  rcases hr.covered e hsince (hlocation ▸ hlt) with h | h | h
  · exact h.imp_left (hinv.acked e)
  · refine .inl (hr.emitted e (hr.suffix.subset ?_))
    rw [positions_append]
    exact List.mem_append_right _ h
  · rw [hwaiting] at h
    cases h

theorem reach_moves {s t : State} (h : Reach lib (State.Fine lib) s) (moves : List Move)
    (hmoves : ∀ move ∈ moves, ∀ s : State, s.Fine lib move)
    (hsteps : moves.foldlM (State.step lib) s = some t) : Reach lib (State.Fine lib) t := by
  induction moves generalizing s with
  | nil =>
      obtain rfl := Option.some.inj hsteps
      exact h
  | cons move moves ih =>
      rw [List.foldlM_cons] at hsteps
      obtain ⟨next, hnext, hrest⟩ := Option.bind_eq_some_iff.mp hsteps
      exact ih (h.next (hmoves move List.mem_cons_self s) hnext)
        (fun m hm => hmoves m (List.mem_cons_of_mem move hm)) hrest

/-- The next entry is read and its cursor saved. -/
def readOne : List Move :=
  [.append, .look, .read false .whole, .push, .emit true, .ack 0, .save 0 true]

/-- One entry after the first start, which has been acked. -/
def oneRead : State where
  tail := 1
  saved := some 0
  run := some { phase := .top, location := 1, events := [0] }
  history := { firstStart := some 0, emitted := [0], acked := [0] }

theorem reach_oneRead : Reach documented (State.Fine documented) oneRead := by
  have hstart : Reach documented (State.Fine documented)
      { run := some { phase := .top, location := 0 }, history := { firstStart := some 0 } } := by
    refine Reached.start.next (m := .start false false .anchored) (.inr ?_) rfl
    rintro e ⟨first, hfirst, -⟩
    cases hfirst
  exact reach_moves hstart readOne (by simp [readOne, State.Fine]) rfl

/-- Of three entries the second was read once more after a crash, and the third cannot be read. -/
def restarted : State where
  tail := 3
  saved := some 1
  run := some { phase := .top, location := 3, events := [1] }
  history :=
    { firstStart := some 0, emitted := [0, 1, 1], acked := [0, 1], unreadable := [2] }

theorem reach_restarted : Reach documented (State.Fine documented) restarted := by
  -- the second entry has become an event when the input crashes, and its ack never fires
  have hcrash : Reach documented (State.Fine documented) { oneRead with
      tail := 2
      run := none
      history := { firstStart := some 0, emitted := [0, 1], acked := [0] } } :=
    reach_moves reach_oneRead [.append, .look, .read false .whole, .push, .emit true, .crash]
      (by simp [State.Fine]) rfl
  have hstart : Reach documented (State.Fine documented) { oneRead with
      tail := 2
      run := some { phase := .skip, location := 0 }
      history := { firstStart := some 0, emitted := [0, 1], acked := [0] } } :=
    hcrash.next (m := .start false false .anchored) (.inl ⟨by simp [oneRead], rfl, rfl⟩) rfl
  -- the entry of the cursor is the one that is skipped
  have hskip : Reach documented (State.Fine documented) { oneRead with
      tail := 2
      run := some { phase := .top, location := 1 }
      history := { firstStart := some 0, emitted := [0, 1], acked := [0] } } := by
    refine hstart.next (m := .skip false) (.inr ?_) rfl
    intro r hrun e hfind _
    obtain rfl := Option.some.inj hrun
    obtain rfl := Option.some.inj hfind
    exact .inl (List.mem_singleton_self 0)
  exact reach_moves hskip
    [.look, .read false .whole, .push, .emit true, .ack 0, .save 0 true, .append, .look,
      .read false .fieldsFailed] (by simp [State.Fine]) rfl

theorem resumes_without_gap_restarted :
    (∀ c, restarted.saved = some c → ∀ e, restarted.history.Since e → e ≤ c →
      e ∈ restarted.history.acked ∨ e ∈ restarted.history.unreadable) ∧
      ∀ r, restarted.run = some r →
        r.events.Pairwise (· < ·) ∧
        (r.CaughtUp restarted.tail → ∀ e, restarted.history.Since e → e < restarted.tail →
          e ∈ restarted.history.emitted ∨ e ∈ restarted.history.unreadable) :=
  resumes_without_gap reach_restarted

end Limpid.Journal
