import MeshTalk.Personal.Cleanup

/-! # What a device has erased

What holds on every device, whatever is merged and whenever its attempts run: a copy of a message
that it holds after an erasure was stored after it, or follows a membership that the erasure spared;
and it says that it has applied a deletion only after such an erasure. -/

namespace MeshTalk.Personal

open Lib Channel AccountGroup List

def Pc.floor : Pc → Option Document
  | .applying f | .drafting f | .recording f | .acknowledging f => some f
  | _ => none

def Pc.erased : Pc → Option Document
  | .drafting f | .recording f | .acknowledging f => some f
  | _ => none

theorem Pc.floor_of_erased {pc : Pc} {f} (h : pc.erased = some f) : pc.floor = some f := by
  cases pc <;> first | exact h | cases h

/-- An erasure left a message that follows a membership its deletion was not for. -/
def Erasure.Spares [EventGraph] (e : Erasure) (id : EventId) : Prop :=
  ∃ l ∈ e.spared, l ∉ e.closed ∧ Follows (anchor l) id

def Erasure.For (e : Erasure) (c : DocumentConversation) (floor : DocumentVersion) : Prop :=
  e.conversation = c ∧ e.floor = floor

namespace Device

def Settled (d : Device) (k : AppliedKey) : Prop :=
  (∃ e ∈ d.erasures, e.For k.conversation k.floor) ∧
    ∃ x ∈ d.store.personal, x.clears = true ∧ x.conversation = k.conversation ∧ x.version = k.floor

structure Kept [EventGraph] (d : Device) : Prop where
  indexed : d.store.Indexed
  floor : ∀ n a f, d.attempts.get n = some a → a.pc.floor = some f →
    f ∈ d.store.personal ∧ f.clears = true ∧ f.conversation = a.target
  erased : ∀ n a f, d.attempts.get n = some a → a.pc.erased = some f →
    ∃ e ∈ d.erasures, e.For a.target f.version
  time : ∀ e ∈ d.erasures, e.time < d.now
  rows : ∀ r ∈ d.rows, ∀ e ∈ d.erasures, e.conversation = r.host → e.time < r.since ∨ e.Spares r.id
  suppressed : ∀ e ∈ d.erasures, ∀ id ∈ e.suppressed, (e.conversation, id) ∈ d.suppressed

section Steps

variable {own : PublicIdentity} {d d' : Device} {n : ℕ} {a : Attempt}

/-- An attempt after a step is one from before, no further with its floor, or begins with a floor of
the store. -/
def Follow (d d' : Device) (n : ℕ) (a : Attempt) : Prop :=
  (∃ b, d.attempts.get n = some b ∧ b.target = a.target ∧
      (∀ f, a.pc.floor = some f → b.pc.floor = some f) ∧
      ∀ f, a.pc.erased = some f → b.pc.erased = some f) ∨
    (∀ f, a.pc.floor = some f → d'.store.floors.get a.target = some f) ∧ a.pc.erased = none

theorem Kept.of_step [EventGraph] (h : d.Kept) (hi : d'.store.Indexed)
    (hp : ∀ x ∈ d.store.personal, x ∈ d'.store.personal) (he : d'.erasures = d.erasures)
    (hn : d.now ≤ d'.now) (hr : ∀ r ∈ d'.rows, r ∈ d.rows ∨ d.now ≤ r.since)
    (hs : ∀ p ∈ d.suppressed, p ∈ d'.suppressed)
    (ha : ∀ n a, d'.attempts.get n = some a → Follow d d' n a) : d'.Kept where
  indexed := hi
  floor := by
    intro n a f hget hf
    rcases ha n a hget with ⟨b, hb, ht, hfloor, -⟩ | ⟨hfloor, -⟩
    · obtain ⟨hm, hc, hconv⟩ := h.floor n b f hb (hfloor f hf)
      exact ⟨hp f hm, hc, hconv.trans ht⟩
    · exact hi.floor_mem a.target f (hfloor f hf)
  erased := by
    intro n a f hget hf
    rcases ha n a hget with ⟨b, hb, ht, -, herased⟩ | ⟨-, hnone⟩
    · obtain ⟨e, hm, hfor⟩ := h.erased n b f hb (herased f hf)
      exact ⟨e, he ▸ hm, ht ▸ hfor⟩
    · rw [hnone] at hf
      cases hf
  time := by
    intro e hm
    rw [he] at hm
    exact (h.time e hm).trans_le hn
  rows := by
    intro r hm e hme hc
    rw [he] at hme
    rcases hr r hm with hold | hnew
    · exact h.rows r hold e hme hc
    · exact .inl ((h.time e hme).trans_le hnew)
  suppressed := by
    intro e hm id hid
    rw [he] at hm
    exact hs _ (h.suppressed e hm id hid)

theorem follow_self (h : d.attempts.get n = some a) : Follow d d' n a :=
  .inl ⟨a, h, rfl, fun _ => id, fun _ => id⟩

theorem Kept.of_attempts [EventGraph] (h : d.Kept) (hs : d'.store = d.store)
    (he : d'.erasures = d.erasures) (hn : d'.now = d.now) (hr : ∀ r ∈ d'.rows, r ∈ d.rows)
    (hsup : ∀ p ∈ d.suppressed, p ∈ d'.suppressed)
    (ha : ∀ n a, d'.attempts.get n = some a → Follow d d' n a) : d'.Kept :=
  h.of_step (hs ▸ h.indexed) (fun _ hx => hs ▸ hx) he hn.ge (fun r hm => .inl (hr r hm)) hsup ha

theorem Kept.drop [EventGraph] (h : d.Kept) (n) : (d.drop n).Kept :=
  h.of_attempts rfl rfl rfl (fun _ => id) (fun _ => id)
    fun _ _ hb => follow_self (Table.get_of_get_erase hb)

theorem get_goto {pc} (m) : (d.goto n a pc).attempts.get m =
    if m = n then some { a with pc := pc } else d.attempts.get m := Table.get_set _ _ _ _

theorem Kept.goto [EventGraph] (h : d.Kept) (ha : d.attempts.get n = some a) {pc}
    (hf : ∀ f, pc.floor = some f → a.pc.floor = some f)
    (he : ∀ f, pc.erased = some f → a.pc.erased = some f) : (d.goto n a pc).Kept := by
  refine h.of_attempts rfl rfl rfl (fun _ => id) (fun _ => id) fun m b hb => ?_
  rw [get_goto] at hb
  split at hb
  · next hm =>
    cases hb
    exact .inl ⟨a, hm ▸ ha, rfl, hf, he⟩
  · exact follow_self hb

theorem Kept.settle [EventGraph] (h : d.Kept) (ha : d.attempts.get n = some a) :
    (d.settle n a).Kept := by
  unfold Device.settle
  split
  · exact h.drop n
  · exact h.goto ha (fun f hf => by cases hf) fun f hf => by cases hf

theorem Kept.index [EventGraph] (h : d.Kept) (x) :
    (d.withStore (d.store.indexPersonalControl x)).Kept :=
  h.of_step (h.indexed.index x) (fun _ hy => mem_append_left _ hy) rfl le_rfl (fun _ => .inl)
    (fun _ => id) fun _ _ hb => follow_self hb

variable {c : DocumentConversation}

theorem Kept.writePersonal [EventGraph] [Sha256] [ContentHash] (h : d.Kept) {id action saved store}
    (hw : d.store.writePersonal own c id action saved = .ok store) : (d.withStore store).Kept := by
  rcases Store.writePersonal_ok hw with ⟨rfl, -⟩ | ⟨rfl, -, -⟩
  · exact h
  · exact h.index _

theorem Kept.command [EventGraph] [Sha256] [ContentHash] (h : d.Kept) (c id action saved) :
    (d.command own c id action saved).Kept := by
  unfold Device.command
  split
  · next hw => exact h.writePersonal hw
  · exact h

/-! ### Erasing -/

variable [EventGraph] {fresh : List MembershipLifetime}

omit [EventGraph] in
theorem eraseScope_fresh {f} (h : d.eraseScope f = .ok (some fresh)) :
    ∀ l ∈ fresh, l ∉ f.closed := by
  unfold eraseScope at h
  split at h
  · cases h
    exact fun l hl => absurd hl not_mem_nil
  · split at h
    · cases h
    · split at h
      · split at h
        · cases h
          exact fun l hl => absurd hl not_mem_nil
        · cases h
      · cases h
        exact fun l => not_mem_closed_of_fresh

theorem follows_of_spared {id} (h : id ∈ d.sparedEvents c fresh) :
    ∃ l ∈ fresh, Follows (anchor l) id := by
  unfold sparedEvents at h
  split at h
  · exact absurd h (Finset.notMem_empty id)
  · split at h
    · exact absurd h (Finset.notMem_empty id)
    · obtain ⟨v, hv, hfollows⟩ := follows_of_mem_descendants h
      obtain ⟨l, hl, rfl⟩ := mem_map.mp hv
      exact ⟨l, hl, hfollows⟩

/-- **An erasure** leaves of its conversation what it spares. -/
theorem Kept.erase (h : d.Kept) {f fresh} (listed) (hfresh : ∀ l ∈ fresh, l ∉ f.closed) :
    (d.erase f fresh listed).Kept where
  indexed := h.indexed
  floor := h.floor
  erased := by
    intro n a g hget hg
    obtain ⟨e, hm, hfor⟩ := h.erased n a g hget hg
    exact ⟨e, mem_append_left _ hm, hfor⟩
  time := by
    intro e hm
    have hnow : (d.erase f fresh listed).now = d.now + 1 := rfl
    rcases mem_append.mp hm with hm | hm
    · have := h.time e hm
      omega
    · rw [mem_singleton] at hm
      subst hm
      exact Nat.lt_succ_self _
  rows := by
    intro r hr e hm hc
    obtain ⟨hr, hkeep⟩ := mem_filter.mp hr
    rcases mem_append.mp hm with hm | hm
    · exact h.rows r hr e hm hc
    · rw [mem_singleton] at hm
      subst hm
      rw [Bool.or_eq_true, decide_eq_true_eq, decide_eq_true_eq] at hkeep
      obtain ⟨l, hl, hfollows⟩ := follows_of_spared (hkeep.resolve_left fun hne => hne hc.symm)
      exact .inr ⟨l, hl, hfresh l hl, hfollows⟩
  suppressed := by
    intro e hm id hid
    rcases mem_append.mp hm with hm | hm
    · exact mem_append_left _ (h.suppressed e hm id hid)
    · rw [mem_singleton] at hm
      subst hm
      exact mem_append_right _ (mem_map.mpr ⟨id, hid, rfl⟩)

theorem Kept.erasePart (h : d.Kept) (c fresh removed) : (d.erasePart c fresh removed).Kept :=
  h.of_attempts rfl rfl rfl (fun _ hr => (mem_filter.mp hr).1)
    (fun _ => mem_append_left _) fun _ _ hb => follow_self hb

/-! ### The steps of a device -/

variable [Sha256] [ContentHash]

theorem Kept.advance (h : d.Kept) (ha : d.attempts.get n = some a) (io) :
    (d.advance own n a io).Kept := by
  have hmove {pc : Pc} (hf : pc.floor = none) : (d.goto n a pc).Kept := by
    refine h.goto ha (fun f hpc => ?_) fun f hpc => ?_
    · rw [hf] at hpc
      cases hpc
    · rw [Pc.floor_of_erased hpc] at hf
      cases hf
  unfold Device.advance
  cases hpc : a.pc with
  | choosing rest =>
    cases rest with
    | nil => exact hmove rfl
    | cons r rest =>
      dsimp only
      split <;> exact hmove rfl
  | chosen r =>
    dsimp only
    split
    · exact hmove rfl
    · split <;> exact hmove rfl
  | leaving r =>
    dsimp only
    split
    · exact h.drop n
    · split <;> exact hmove rfl
  | deleting r =>
    dsimp only
    split
    · exact h.drop n
    · split
      · unfold Device.write
        split
        · next hw =>
          exact (h.writePersonal hw).goto ha (fun f hf => by cases hf) fun f hf => by cases hf
        · exact h.drop n
      · exact h.drop n
  | flooring =>
    dsimp only
    split
    · exact hmove rfl
    · next f hf =>
      refine h.of_attempts rfl rfl rfl (fun _ => id) (fun _ => id) fun m b hb => ?_
      rw [get_goto] at hb
      split at hb
      · cases hb
        exact .inr ⟨fun g hg => hg ▸ hf, rfl⟩
      · exact follow_self hb
  | applying f =>
    dsimp only
    split
    · exact h.drop n
    split
    · exact h.settle ha
    split
    · exact h.drop n
    · exact h.settle ha
    · next fresh hscope =>
      split
      · -- the erasure is what the attempt has from here on
        have hk := h.erase (f := f) io.listed (eraseScope_fresh hscope)
        obtain ⟨-, -, hconv⟩ := h.floor n a f ha (by rw [hpc]; rfl)
        refine ⟨hk.indexed, ?_, ?_, hk.time, hk.rows, hk.suppressed⟩
        · intro m b g hb hg
          rw [get_goto] at hb
          split at hb
          · cases hb
            cases hg
            exact h.floor n a f ha (by rw [hpc]; rfl)
          · exact hk.floor m b g hb hg
        · intro m b g hb hg
          rw [get_goto] at hb
          split at hb
          · cases hb
            cases hg
            exact ⟨_, mem_append_right _ mem_cons_self, hconv, rfl⟩
          · exact hk.erased m b g hb hg
      · exact (h.erasePart _ _ _).drop n
  | drafting f =>
    dsimp only
    split
    · exact h.goto ha (fun g hg => by rw [hpc]; exact hg) fun g hg => by rw [hpc]; exact hg
    · exact h.drop n
  | recording f =>
    dsimp only
    split
    · exact h.goto ha (fun g hg => by rw [hpc]; exact hg) fun g hg => by rw [hpc]; exact hg
    · exact h.drop n
  | acknowledging f =>
    dsimp only
    unfold Device.write
    split
    · next hw => exact (h.writePersonal hw).settle ha
    · exact h.drop n
  | forgetting =>
    refine Kept.drop (d := d.withStore _) ?_ n
    exact h.of_step (h.indexed.congr rfl rfl rfl) (fun _ => id) rfl le_rfl
      (fun _ => .inl) (fun _ => id)
      fun _ _ hb => follow_self hb

section
omit [Sha256] [ContentHash]

theorem Kept.record (h : d.Kept) (host : DocumentConversation) (id) : (d.record host id).Kept := by
  unfold Device.record
  split
  · exact h
  · refine h.of_step h.indexed (fun _ h => h) rfl (Nat.le_succ _) (fun r hr => ?_)
      (fun _ h => h) fun _ _ hb => follow_self hb
    rcases mem_append.mp hr with hr | hr
    · exact .inl hr
    · rw [mem_singleton] at hr
      subst hr
      exact .inr le_rfl

theorem Kept.restart (h : d.Kept) : d.restart.Kept where
  indexed := Store.indexed_openFrom _
  floor := fun n a f hn => by cases hn
  erased := fun n a f hn => by cases hn
  time := h.time
  rows := h.rows
  suppressed := h.suppressed

theorem Kept.start (h : d.Kept) (n c live) : (d.start n c live).Kept := by
  have henter (pc : Pc) (hf : ∀ f, pc.floor = some f → d.store.floors.get c = some f)
      (he : pc.erased = none) : Kept { d with attempts := d.attempts.set n ⟨c, live, pc⟩ } := by
    refine h.of_attempts rfl rfl rfl (fun _ => id) (fun _ => id) fun m b hb => ?_
    rw [Table.get_set] at hb
    split at hb
    · cases hb
      exact .inr ⟨hf, he⟩
    · exact follow_self hb
  unfold Device.start
  split
  · exact h
  split
  · next hlive =>
    split
    · exact h
    · next f hf =>
      subst hlive
      exact henter (.applying f) (fun g hg => hg ▸ hf) rfl
  · next hlive =>
    rw [Bool.not_eq_true] at hlive
    subst hlive
    exact henter _ (fun f hf => by cases hf) rfl

end

/-- **Whatever happens on a device**, the invariant holds. -/
theorem kept_perform (h : d.Kept) (action) : (d.perform own action).Kept := by
  cases action with
  | merge x saved =>
    unfold perform
    dsimp only
    split
    · next hok =>
      rcases Store.merge_cases hok with rfl | rfl
      · exact h
      · exact h.index x
    · exact h
  | noteGroup group =>
    obtain ⟨hp, hf, ha⟩ := d.store.noteGroup_frame group
    exact h.of_step (h.indexed.congr hp hf ha) (fun x hx => hp.symm ▸ hx) rfl le_rfl
      (fun _ => .inl) (fun _ => id) fun _ _ hb => follow_self hb
  | journal r phase =>
    show (d.journalPut r phase).Kept
    unfold Device.journalPut
    split
    · exact h
    · exact h.of_attempts rfl rfl rfl (fun _ => id) (fun _ => id) fun _ _ hb => follow_self hb
  | membership group access =>
    exact h.of_attempts rfl rfl rfl (fun _ => id) (fun _ => id) fun _ _ hb => follow_self hb
  | learn event =>
    exact h.of_attempts rfl rfl rfl (fun _ => id) (fun _ => id) fun _ _ hb => follow_self hb
  | chooseLeave r deleteHistory saved => exact h.command _ _ _ _
  | deleteLeftGroup group id saved =>
    show (d.deleteLeftGroup own group id saved).Kept
    unfold Device.deleteLeftGroup
    split
    · exact h
    split
    · exact h
    split
    · exact h.command _ _ _ _
    · exact h
  | deleteAccountContact peer clearHistory id saved =>
    show (d.deleteAccountContact own peer clearHistory id saved).Kept
    unfold Device.deleteAccountContact
    dsimp only
    split
    · exact h
    · exact h.command _ _ _ _
  | reopen peer id saved =>
    show (d.reopenPersonal own peer id saved).Kept
    unfold Device.reopenPersonal
    dsimp only
    split
    · exact h
    split
    · exact h
    · exact h.command _ _ _ _
  | start n target live => exact h.start n target live
  | advance n io =>
    unfold perform
    dsimp only
    split
    · exact h
    · next a ha => exact h.advance ha io
  | receive host id => exact h.record host id
  | suppress host ids =>
    exact h.of_attempts rfl rfl rfl (fun _ hr => (mem_filter.mp hr).1)
      (fun _ => mem_append_left _) fun _ _ hb => follow_self hb
  | restart => exact h.restart

/-! ### What a device says -/

/-- A device keeps its documents and its erasures, and what it newly says that it has applied it has
erased. -/
structure Grows (own : PublicIdentity) (d d' : Device) : Prop where
  personal : ∀ x ∈ d.store.personal, x ∈ d'.store.personal
  erasures : ∀ e ∈ d.erasures, e ∈ d'.erasures
  acknowledged : ∀ x ∈ d'.store.personal, x ∈ d.store.personal ∨ x.acknowledges = none ∨
    ∃ k, x.acknowledges = some k ∧ k.device = own ∧ d.Settled k

omit [EventGraph] [Sha256] [ContentHash] in
theorem Grows.of_eq (hp : d'.store.personal = d.store.personal)
    (he : ∀ e ∈ d.erasures, e ∈ d'.erasures) : Grows own d d' :=
  ⟨fun _ hx => hp ▸ hx, he, fun _ hx => .inl (hp ▸ hx)⟩

omit [EventGraph] in
/-- A write, of a control that says nothing of an erasure or of one that was made. -/
theorem Grows.writePersonal {c id action saved store}
    (hw : d.store.writePersonal own c id action saved = .ok store)
    (hack : ∀ floor device, action = .applied floor device → device = own ∧
      d.Settled ⟨c, floor, own⟩)
    (hs : d'.store.personal = store.personal) (he : d'.erasures = d.erasures) : Grows own d d' := by
  rcases Store.writePersonal_ok hw with ⟨rfl, -⟩ | ⟨rfl, -, -⟩
  · exact .of_eq hs fun e hm => he ▸ hm
  · rw [Store.personal_index] at hs
    refine ⟨fun x hx => hs ▸ mem_append_left _ hx, fun e hm => he ▸ hm, fun x hx => ?_⟩
    rw [hs, mem_append, mem_singleton] at hx
    rcases hx with hx | rfl
    · exact .inl hx
    · cases action with
      | applied floor device =>
        obtain ⟨rfl, hset⟩ := hack floor device rfl
        exact .inr (.inr ⟨_, rfl, rfl, hset⟩)
      | leaveChoice | delete | reopen => exact .inr (.inl rfl)

omit [EventGraph] in
theorem Grows.command {c id action} (hack : ∀ floor device,
    action ≠ .applied floor device) (saved) :
    Grows own d (d.command own c id action saved) := by
  unfold Device.command
  split
  · next hw => exact .writePersonal hw (fun f p h => absurd h (hack f p)) rfl rfl
  · exact .of_eq rfl fun _ h => h

theorem grows_advance (h : d.Kept) (ha : d.attempts.get n = some a) (io) :
    Grows own d (d.advance own n a io) := by
  have hmove (pc : Pc) : Grows own d (d.goto n a pc) := .of_eq rfl fun _ => id
  have hdrop : Grows own d (d.drop n) := .of_eq rfl fun _ => id
  have hsettle : Grows own d (d.settle n a) := by
    unfold Device.settle
    split
    · exact hdrop
    · exact hmove _
  unfold Device.advance
  cases hpc : a.pc with
  | choosing rest =>
    cases rest with
    | nil => exact hmove _
    | cons r rest =>
      dsimp only
      split <;> exact hmove _
  | chosen r =>
    dsimp only
    split
    · exact hmove _
    · split <;> exact hmove _
  | leaving r =>
    dsimp only
    split
    · exact hdrop
    · split <;> exact hmove _
  | deleting r =>
    dsimp only
    split
    · exact hdrop
    split
    · unfold Device.write
      split
      · next hw => exact .writePersonal hw (fun f p hne => by cases hne) rfl rfl
      · exact hdrop
    · exact hdrop
  | flooring =>
    dsimp only
    split <;> exact hmove _
  | applying f =>
    dsimp only
    split
    · exact hdrop
    split
    · exact hsettle
    split
    · exact hdrop
    · exact hsettle
    split
    · exact .of_eq rfl fun _ => mem_append_left _
    · exact .of_eq rfl fun _ => id
  | drafting f =>
    dsimp only
    split
    · exact hmove _
    · exact hdrop
  | recording f =>
    dsimp only
    split
    · exact hmove _
    · exact hdrop
  | acknowledging f =>
    -- the attempt has erased for its floor, which the store holds
    obtain ⟨hm, hclears, hconv⟩ := h.floor n a f ha (by rw [hpc]; rfl)
    have herased := h.erased n a f ha (by rw [hpc]; rfl)
    dsimp only
    unfold Device.write
    split
    · next store hw =>
      refine .writePersonal hw ?_ ?_ ?_
      · intro floor device heq
        cases heq
        exact ⟨rfl, herased, f, hm, hclears, hconv, rfl⟩
      · unfold Device.settle
        split <;> rfl
      · unfold Device.settle
        split <;> rfl
    · exact hdrop
  | forgetting => exact .of_eq rfl fun _ => id

/-- **A device says that it has applied a deletion only after it has erased for it.** -/
theorem grows_perform (h : d.Kept) {action} (hlocal : ∀ x saved, action ≠ .merge x saved) :
    Grows own d (d.perform own action) := by
  have hsame : Grows own d d := .of_eq rfl fun _ => id
  cases action with
  | merge x saved => exact absurd rfl (hlocal x saved)
  | noteGroup group => exact .of_eq (Store.noteGroup_frame _ _).1 fun _ => id
  | journal r phase =>
    show Grows own d (d.journalPut r phase)
    unfold Device.journalPut
    split <;> exact .of_eq rfl fun _ => id
  | membership group access => exact .of_eq rfl fun _ => id
  | learn event => exact .of_eq rfl fun _ => id
  | chooseLeave r deleteHistory saved => exact .command (fun _ _ hne => by cases hne) saved
  | deleteLeftGroup group id saved =>
    show Grows own d (d.deleteLeftGroup own group id saved)
    unfold Device.deleteLeftGroup
    split
    · exact hsame
    split
    · exact hsame
    split
    · exact .command (fun _ _ hne => by cases hne) saved
    · exact hsame
  | deleteAccountContact peer clearHistory id saved =>
    show Grows own d (d.deleteAccountContact own peer clearHistory id saved)
    unfold Device.deleteAccountContact
    dsimp only
    split
    · exact hsame
    · exact .command (fun _ _ hne => by cases hne) saved
  | reopen peer id saved =>
    show Grows own d (d.reopenPersonal own peer id saved)
    unfold Device.reopenPersonal
    dsimp only
    split
    · exact hsame
    split
    · exact hsame
    · exact .command (fun _ _ hne => by cases hne) saved
  | start n target live =>
    show Grows own d (d.start n target live)
    unfold Device.start
    split
    · exact hsame
    split
    · split <;> exact .of_eq rfl fun _ => id
    · exact .of_eq rfl fun _ => id
  | advance n io =>
    unfold perform
    dsimp only
    split
    · exact hsame
    · next a ha => exact grows_advance h ha io
  | receive host id =>
    show Grows own d (d.record host id)
    unfold Device.record
    split <;> exact .of_eq rfl fun _ h => h
  | suppress host ids => exact .of_eq rfl fun _ => id
  | restart => exact .of_eq (Store.personal_openFrom _) fun _ => id

end Steps

end Device

end MeshTalk.Personal
