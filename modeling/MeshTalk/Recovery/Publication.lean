import MeshTalk.Recovery.Machine

/-! # A publication is all or nothing

What the folders keep, whatever fails and whenever the power is lost (`Core`): a publication is
marked in every version the root can go back to, or it is settled, with both of its directories in
place for good or with neither. What a marker names belongs to its own publication, so a rollback
removes nothing else.

This needs three things the code does not see to (`Meets`): nobody registers under the name of a
marker that may still be there; the sync that makes the commit durable succeeds; and what a rollback
removes is gone, at once and after a loss of power. -/

namespace MeshTalk.Recovery

open MeshTalk.Lib Function State Cell Option

/-! ### What the folders keep -/

namespace Disk

/-- Both directories of a publication are in place, and no loss of power takes them back. -/
def In (d : Disk) (n : String) (i : ℕ) : Prop :=
  (∀ v ∈ (d.users n).recent, v = some ⟨i, true⟩) ∧ ∀ v ∈ (d.accounts i).recent, v = some ⟨i, true⟩

/-- Nothing of a publication is there, and no loss of power brings it back. -/
def Out (d : Disk) (n : String) (i : ℕ) : Prop :=
  (∀ v ∈ (d.users n).recent, ∀ e, v = some e → e.op ≠ i) ∧ ∀ v ∈ (d.accounts i).recent, v = none

/-- Whatever the root goes back to, it has the marker of this publication. -/
def OnlyMarked (d : Disk) (i : ℕ) : Prop :=
  ∀ r ∈ d.root.versions, ∃ m, r.marker = some m ∧ m.hostId = i

end Disk

/-- What the folders keep between two file operations. -/
structure Core (d : Disk) : Prop where
  owned : ∀ n, ∀ v ∈ (d.users n).recent, ∀ e, v = some e →
    e.op < d.nextOp ∧ ∀ n', d.names e.op = some n' → n' = n
  accounts : ∀ i, ∀ v ∈ (d.accounts i).recent, ∀ e, v = some e → e.op = i ∧ i < d.nextOp
  named : ∀ i n, d.names i = some n → i < d.nextOp
  done : ∀ i b, d.reports i = some b → i < d.nextOp
  marked : ∀ r ∈ d.root.versions, ∀ m, r.marker = some m → m.complete = false ∧
    d.names m.hostId = some m.username ∧ d.reports m.hostId ≠ some true ∧
    ∀ v ∈ (d.users m.username).recent, ∀ e, v = some e → e.op = m.hostId
  pending : ∀ m, d.root.current.marker = some m → d.OnlyMarked m.hostId ∨ d.Out m.username m.hostId
  settled : ∀ i n, d.names i = some n → d.OnlyMarked i ∨ d.In n i ∨ d.Out n i
  reported : ∀ i n, d.names i = some n → d.reports i = some true → d.In n i

namespace Core

variable {d : Disk} {n : String} {i : ℕ}

theorem init : Core init.toDisk := by
  refine ⟨?_, ?_, nofun, nofun, ?_, nofun, nofun, nofun⟩
  · intro n v hv e he
    rw [mem_recent_still.mp hv] at he
    cases he
  · intro i v hv e he
    rw [mem_recent_still.mp hv] at he
    cases he
  · intro r hr m hm
    rw [mem_still.mp hr] at hm
    cases hm

section

variable (h : Core d)
include h

theorem settled_of_unmarked (hm : d.root.current.marker = none)
    (hn : d.names i = some n) : d.In n i ∨ d.Out n i := by
  rcases h.settled i n hn with honly | hs
  · obtain ⟨m, hm', -⟩ := honly _ d.root.current_mem
    rw [hm] at hm'
    cases hm'
  · exact hs

theorem report_false (hi : i < d.nextOp) :
    Core { d with reports := update d.reports i (some false) } := by
  have htrue : ∀ j, update d.reports i (some false) j = some true → d.reports j = some true := by
    intro j hj
    by_cases hji : j = i
    · subst hji
      rw [update_self] at hj
      cases hj
    · rwa [update_of_ne hji] at hj
  refine ⟨h.owned, h.accounts, h.named, ?_, ?_, h.pending, h.settled, ?_⟩
  · intro j b hj
    by_cases hji : j = i
    · exact hji ▸ hi
    · exact h.done j b ((update_of_ne hji _ _).symm.trans hj)
  · intro r hr m hm
    obtain ⟨hc, hname, hrep, hown⟩ := h.marked r hr m hm
    exact ⟨hc, hname, fun ht => hrep (htrue _ ht), hown⟩
  · intro j n' hn ht
    exact h.reported j n' hn (htrue j ht)

theorem report_true (hin : d.In n i) (hname : d.names i = some n)
    (hfree : ∀ r ∈ d.root.versions, r.marker = none) :
    Core { d with reports := update d.reports i (some true) } := by
  refine ⟨h.owned, h.accounts, h.named, ?_, ?_, h.pending, h.settled, ?_⟩
  · intro j b hj
    by_cases hji : j = i
    · exact hji ▸ h.named i n hname
    · exact h.done j b ((update_of_ne hji _ _).symm.trans hj)
  · intro r hr m hm
    rw [hfree r hr] at hm
    cases hm
  · intro j n' hn ht
    by_cases hji : j = i
    · subst hji
      rw [hname] at hn
      cases hn
      exact hin
    · exact h.reported j n' hn ((update_of_ne hji _ _).symm.trans ht)

/-- The root goes back to a version, is synced, or changes without its marker. -/
theorem root_same {root} (hsub : ∀ r ∈ root.versions, ∃ r₀ ∈ d.root.versions, r.marker = r₀.marker)
    (hpend : ∀ m, root.current.marker = some m →
      (∀ r ∈ root.versions, ∃ m', r.marker = some m' ∧ m'.hostId = m.hostId) ∨
        d.Out m.username m.hostId) : Core { d with root := root } := by
  refine ⟨h.owned, h.accounts, h.named, h.done, ?_, hpend, ?_, h.reported⟩
  · intro r hr m hm
    obtain ⟨r₀, hr₀, heq⟩ := hsub r hr
    exact h.marked r₀ hr₀ m (heq ▸ hm)
  · intro j n' hn
    rcases h.settled j n' hn with honly | hs
    · refine .inl fun r hr => ?_
      obtain ⟨r₀, hr₀, heq⟩ := hsub r hr
      rw [heq]
      exact honly r₀ hr₀
    · exact .inr hs

theorem root_sync : Core { d with root := d.root.sync } := by
  refine h.root_same ?_ ?_
  · intro r hr
    exact ⟨_, d.root.current_mem, by rw [mem_sync.mp hr]⟩
  · intro m hm
    refine .inl fun r hr => ⟨m, ?_, rfl⟩
    rw [mem_sync.mp hr]
    exact hm

theorem root_pick (k) : Core { d with root := d.root.pick k } := by
  refine h.root_same ?_ ?_
  · intro r hr
    exact ⟨_, d.root.pick_mem k, by rw [mem_pick.mp hr]⟩
  · intro m hm
    refine .inl fun r hr => ⟨m, ?_, rfl⟩
    rw [mem_pick.mp hr]
    exact hm

theorem root_uncomplete :
    Core { d with root := d.root.write { d.root.current with completed := false } } := by
  refine h.root_same ?_ ?_
  · intro r hr
    rcases mem_write.mp hr with rfl | hr
    · exact ⟨_, d.root.current_mem, rfl⟩
    · exact ⟨r, hr, rfl⟩
  · intro m hm
    rcases h.pending m hm with honly | hout
    · refine .inl fun r hr => ?_
      rcases mem_write.mp hr with rfl | hr
      · exact ⟨m, hm, rfl⟩
      · exact honly r hr
    · exact .inr hout

theorem root_clear {r'} (hr' : r'.marker = none)
    (hset : ∀ m, d.root.current.marker = some m → d.In m.username m.hostId ∨
      d.Out m.username m.hostId) :
    Core { d with root := d.root.write r' } := by
  refine ⟨h.owned, h.accounts, h.named, h.done, ?_, ?_, ?_, h.reported⟩
  · intro r hr m hm
    rcases mem_write.mp hr with rfl | hr
    · rw [hr'] at hm
      cases hm
    · exact h.marked r hr m hm
  · intro m hm
    rw [current_write, hr'] at hm
    cases hm
  · intro j n' hn
    rcases h.settled j n' hn with honly | hs
    · obtain ⟨m, hm, rfl⟩ := honly _ d.root.current_mem
      obtain ⟨-, hname, -, -⟩ := h.marked _ d.root.current_mem m hm
      rw [hname] at hn
      cases hn
      exact .inr (hset m hm)
    · exact .inr hs

theorem root_mark (hnone : d.root.current.marker = none) (hname : d.names i = some n)
    (hrep : d.reports i ≠ some true) (habsent : (d.users n).current = none) (hout : d.Out n i) :
    Core { d with root := d.root.write { d.root.current with marker := some ⟨n, i, false⟩ } } := by
  refine ⟨h.owned, h.accounts, h.named, h.done, ?_, ?_, ?_, h.reported⟩
  · intro r hr m hm
    rcases mem_write.mp hr with rfl | hr
    · cases hm
      refine ⟨rfl, hname, hrep, fun v hv e he => ?_⟩
      rw [(mem_recent_of_absent habsent).mp hv] at he
      cases he
    · exact h.marked r hr m hm
  · intro m hm
    cases hm
    exact .inr hout
  · intro j n' hn
    exact .inr (h.settled_of_unmarked hnone hn)

/-- The two folders are synced, or go back to versions since entries were last absent. -/
theorem entries_back {users accounts} (hu : ∀ n, ∀ v ∈ (users n).recent, v ∈ (d.users n).recent)
    (ha : ∀ i, ∀ v ∈ (accounts i).recent, v ∈ (d.accounts i).recent) :
    Core { d with users := users, accounts := accounts } := by
  have hin : ∀ {n i}, d.In n i → Disk.In { d with users := users, accounts := accounts } n i :=
    fun ⟨h₁, h₂⟩ => ⟨fun v hv => h₁ v (hu _ v hv), fun v hv => h₂ v (ha _ v hv)⟩
  have hout : ∀ {n i}, d.Out n i → Disk.Out { d with users := users, accounts := accounts } n i :=
    fun ⟨h₁, h₂⟩ => ⟨fun v hv => h₁ v (hu _ v hv), fun v hv => h₂ v (ha _ v hv)⟩
  refine ⟨fun n v hv => h.owned n v (hu n v hv), fun i v hv => h.accounts i v (ha i v hv), h.named,
    h.done, ?_, ?_, ?_, ?_⟩
  · intro r hr m hm
    obtain ⟨hc, hname, hrep, hown⟩ := h.marked r hr m hm
    exact ⟨hc, hname, hrep, fun v hv => hown v (hu _ v hv)⟩
  · exact fun m hm => (h.pending m hm).imp_right hout
  · exact fun j n' hn => (h.settled j n' hn).imp_right (Or.imp hin hout)
  · exact fun j n' hn ht => hin (h.reported j n' hn ht)

end

/-! ### One entry changes -/

variable {c : Cell (Option Entry)}

section

variable (h : Core d)
include h

/-- The directory of a user is another one; the other users keep theirs. -/
theorem user_change (howned : ∀ v ∈ c.recent, ∀ e, v = some e →
      e.op < d.nextOp ∧ ∀ n', d.names e.op = some n' → n' = n)
    (hmarked : ∀ r ∈ d.root.versions, ∀ m, r.marker = some m → m.username = n →
      ∀ v ∈ c.recent, ∀ e, v = some e → e.op = m.hostId)
    (hout : ∀ j, d.names j = some n → d.Out n j →
      d.OnlyMarked j ∨ ∀ v ∈ c.recent, ∀ e, v = some e → e.op ≠ j)
    (hin : ∀ j, d.names j = some n → d.In n j → d.OnlyMarked j ∧ d.reports j ≠ some true) :
    Core { d with users := update d.users n c } := by
  have hself : update d.users n c n = c := update_self _ _ _
  have hother : ∀ {n'}, n' ≠ n → update d.users n c n' = d.users n' := fun hne =>
    update_of_ne hne _ _
  have hout' : ∀ {n' j}, d.names j = some n' → d.Out n' j →
      d.OnlyMarked j ∨ Disk.Out { d with users := update d.users n c } n' j := by
    intro n' j hj ho
    by_cases hn : n' = n
    · subst hn
      refine (hout j hj ho).imp_right fun hne => ⟨?_, ho.2⟩
      dsimp only
      rw [hself]
      exact hne
    · refine .inr ⟨?_, ho.2⟩
      dsimp only
      rw [hother hn]
      exact ho.1
  have hin' : ∀ {n' j}, n' ≠ n → d.In n' j →
      Disk.In { d with users := update d.users n c } n' j := by
    intro n' j hn hi
    refine ⟨?_, hi.2⟩
    dsimp only
    rw [hother hn]
    exact hi.1
  refine ⟨?_, h.accounts, h.named, h.done, ?_, ?_, ?_, ?_⟩
  · intro n' v hv e he
    by_cases hn : n' = n
    · subst hn
      dsimp only at hv
      rw [hself] at hv
      exact howned v hv e he
    · dsimp only at hv
      rw [hother hn] at hv
      exact h.owned n' v hv e he
  · intro r hr m hm
    obtain ⟨hc, hname, hrep, hown⟩ := h.marked r hr m hm
    refine ⟨hc, hname, hrep, fun v hv e he => ?_⟩
    by_cases hn : m.username = n
    · dsimp only at hv
      rw [hn, hself] at hv
      exact hmarked r hr m hm hn v hv e he
    · dsimp only at hv
      rw [hother hn] at hv
      exact hown v hv e he
  · intro m hm
    obtain ⟨-, hname, -, -⟩ := h.marked _ d.root.current_mem m hm
    exact (h.pending m hm).elim .inl (hout' hname)
  · intro j n' hj
    rcases h.settled j n' hj with honly | hi | ho
    · exact .inl honly
    · by_cases hn : n' = n
      · subst hn
        exact .inl (hin j hj hi).1
      · exact .inr (.inl (hin' hn hi))
    · exact (hout' hj ho).imp_right .inr
  · intro j n' hj ht
    have hi := h.reported j n' hj ht
    refine hin' (fun hn => ?_) hi
    subst hn
    exact (hin j hj hi).2 ht

/-- The directory of an account is another one; the other accounts keep theirs. -/
theorem account_change (howned : ∀ v ∈ c.recent, ∀ e, v = some e → e.op = i ∧ i < d.nextOp)
    (hset : ∀ n, d.names i = some n → d.OnlyMarked i ∨ (d.Out n i ∧ ∀ v ∈ c.recent, v = none))
    (hrep : d.names i ≠ none → d.reports i ≠ some true) :
    Core { d with accounts := update d.accounts i c } := by
  have hself : update d.accounts i c i = c := update_self _ _ _
  have hother : ∀ {j}, j ≠ i → update d.accounts i c j = d.accounts j := fun hne =>
    update_of_ne hne _ _
  have hout' : ∀ {n' j}, j ≠ i → d.Out n' j →
      Disk.Out { d with accounts := update d.accounts i c } n' j := by
    intro n' j hne ho
    refine ⟨ho.1, ?_⟩
    dsimp only
    rw [hother hne]
    exact ho.2
  have hin' : ∀ {n' j}, j ≠ i → d.In n' j →
      Disk.In { d with accounts := update d.accounts i c } n' j := by
    intro n' j hne hi
    refine ⟨hi.1, ?_⟩
    dsimp only
    rw [hother hne]
    exact hi.2
  have hset' : ∀ n', d.names i = some n' → d.OnlyMarked i ∨
      Disk.Out { d with accounts := update d.accounts i c } n' i := by
    intro n' hn
    refine (hset n' hn).imp_right fun ⟨ho, hnone⟩ => ⟨ho.1, ?_⟩
    dsimp only
    rw [hself]
    exact hnone
  refine ⟨h.owned, ?_, h.named, h.done, h.marked, ?_, ?_, ?_⟩
  · intro j v hv e he
    by_cases hj : j = i
    · subst hj
      dsimp only at hv
      rw [hself] at hv
      exact howned v hv e he
    · dsimp only at hv
      rw [hother hj] at hv
      exact h.accounts j v hv e he
  · intro m hm
    obtain ⟨-, hname, -, -⟩ := h.marked _ d.root.current_mem m hm
    by_cases hj : m.hostId = i
    · subst hj
      exact hset' _ hname
    · exact (h.pending m hm).imp_right (hout' hj)
  · intro j n' hn
    by_cases hj : j = i
    · subst hj
      exact (hset' n' hn).imp_right .inr
    · exact (h.settled j n' hn).imp_right (Or.imp (hin' hj) (hout' hj))
  · intro j n' hn ht
    by_cases hj : j = i
    · subst hj
      exact absurd ht (hrep (by rw [hn]; nofun))
    · exact hin' hj (h.reported j n' hn ht)

theorem op_named (n) :
    Core { d with nextOp := d.nextOp + 1, names := update d.names d.nextOp (some n) } ∧
      d.Out n d.nextOp := by
  have hout : d.Out n d.nextOp := by
    constructor
    · intro v hv e he heq
      have := (h.owned n v hv e he).1
      omega
    · intro v hv
      cases v with
      | none => rfl
      | some e =>
        have := (h.accounts d.nextOp _ hv e rfl).2
        omega
  have hold : ∀ {j}, j < d.nextOp → update d.names d.nextOp (some n) j = d.names j := fun hj =>
    update_of_ne (by omega) _ _
  have hnames : ∀ {j n'}, update d.names d.nextOp (some n) j = some n' →
      (j = d.nextOp ∧ n' = n) ∨ d.names j = some n' := by
    intro j n' hj
    by_cases hji : j = d.nextOp
    · subst hji
      rw [update_self] at hj
      exact .inl ⟨rfl, (some.inj hj).symm⟩
    · rw [update_of_ne hji] at hj
      exact .inr hj
  refine ⟨⟨?_, ?_, ?_, ?_, ?_, h.pending, ?_, ?_⟩, hout⟩
  · intro n' v hv e he
    obtain ⟨hlt, hn⟩ := h.owned n' v hv e he
    refine ⟨Nat.lt_succ_of_lt hlt, fun n'' hn'' => hn n'' ?_⟩
    dsimp only at hn''
    rwa [hold hlt] at hn''
  · intro j v hv e he
    obtain ⟨ho, hlt⟩ := h.accounts j v hv e he
    exact ⟨ho, Nat.lt_succ_of_lt hlt⟩
  · intro j n' hj
    rcases hnames hj with ⟨rfl, -⟩ | hj
    · exact Nat.lt_succ_self _
    · exact Nat.lt_succ_of_lt (h.named j n' hj)
  · exact fun j b hj => Nat.lt_succ_of_lt (h.done j b hj)
  · intro r hr m hm
    obtain ⟨hc, hname, hrep, hown⟩ := h.marked r hr m hm
    exact ⟨hc, (hold (h.named _ _ hname)).trans hname, hrep, hown⟩
  · intro j n' hj
    rcases hnames hj with ⟨rfl, rfl⟩ | hj
    · exact .inr (.inr hout)
    · exact h.settled j n' hj
  · intro j n' hj ht
    rcases hnames hj with ⟨rfl, -⟩ | hj
    · have := h.done _ _ ht
      omega
    · exact h.reported j n' hj ht

theorem op_plain : Core { d with nextOp := d.nextOp + 1 } :=
  ⟨fun n v hv e he => ⟨Nat.lt_succ_of_lt (h.owned n v hv e he).1, (h.owned n v hv e he).2⟩,
    fun j v hv e he => ⟨(h.accounts j v hv e he).1, Nat.lt_succ_of_lt (h.accounts j v hv e he).2⟩,
    fun j n hj => Nat.lt_succ_of_lt (h.named j n hj),
    fun j b hj => Nat.lt_succ_of_lt (h.done j b hj), h.marked, h.pending, h.settled, h.reported⟩

theorem user_drop {m} (hm : d.root.current.marker = some m) (hc : c.current = none) :
    Core { d with users := update d.users m.username c } := by
  have hnone : ∀ v ∈ c.recent, ∀ e, v ≠ some e := by
    intro v hv e he
    rw [(mem_recent_of_absent hc).mp hv] at he
    cases he
  obtain ⟨-, hname, hrep, hown⟩ := h.marked _ d.root.current_mem m hm
  refine h.user_change (fun v hv e he => absurd he (hnone v hv e))
    (fun r hr m' hm' hn v hv e he => absurd he (hnone v hv e))
    (fun j hj ho => .inr fun v hv e he => absurd he (hnone v hv e)) ?_
  -- what is in place under this name is the marked publication itself
  intro j hj hi
  have hcur := hi.1 _ (d.users m.username).current_mem_recent
  have hjm : j = m.hostId := hown _ (d.users m.username).current_mem_recent _ hcur
  subst hjm
  refine ⟨?_, hrep⟩
  rcases h.pending m hm with honly | ho
  · exact honly
  · exact absurd rfl (ho.1 _ (d.users m.username).current_mem_recent _ hcur)

theorem account_drop {m} (hm : d.root.current.marker = some m) (hc : c.current = none) :
    Core { d with accounts := update d.accounts m.hostId c } := by
  have hnone : ∀ v ∈ c.recent, v = none := fun v hv => (mem_recent_of_absent hc).mp hv
  obtain ⟨-, hname, hrep, -⟩ := h.marked _ d.root.current_mem m hm
  refine h.account_change (fun v hv e he => ?_) (fun n hn => ?_) fun _ => hrep
  · rw [hnone v hv] at he
    cases he
  · rw [hname] at hn
    cases hn
    exact (h.pending m hm).imp_right fun ho => ⟨ho, hnone⟩

end

end Core

/-! ### Where the process is -/

def Disk.Marks (d : Disk) (n : String) (i : ℕ) : Prop :=
  ∀ r ∈ d.root.versions, r.marker = some ⟨n, i, false⟩

/-- What holds before each file operation of a publication. -/
def PublishOk (d : Disk) (n : String) (i : ℕ) : PublishPc → Prop
  | .persistMarker => d.Out n i
  | .syncMarker => d.Out n i ∧ d.root.current.marker = some ⟨n, i, false⟩
  | .renameCredentials => d.Marks n i ∧ d.Out n i
  | .syncUsers => d.Marks n i ∧ (d.users n).current = some ⟨i, true⟩ ∧
      ∀ v ∈ (d.accounts i).recent, v = none
  | .renameProfile => d.Marks n i ∧ (∀ v ∈ (d.users n).recent, v = some ⟨i, true⟩) ∧
      ∀ v ∈ (d.accounts i).recent, v = none
  | .syncAccounts => d.Marks n i ∧ (∀ v ∈ (d.users n).recent, v = some ⟨i, true⟩) ∧
      (d.accounts i).current = some ⟨i, true⟩
  | .renameMarker => d.Marks n i ∧ d.In n i
  | .syncCommit => d.root.current.marker = none ∧ d.In n i
  | .removeCompleted => (∀ r ∈ d.root.versions, r.marker = none) ∧ d.In n i
  | .syncRoot => (∀ r ∈ d.root.versions, r.marker = none) ∧ d.In n i

/-- What holds before each file operation of a recovery. -/
def RecoverOk (d : Disk) : RecoverPc → Prop
  | .removeCompleted => True
  | .removeUser => True
  | .removeAccount => ∀ m, d.root.current.marker = some m →
      ∀ v ∈ (d.users m.username).recent, v = none
  | .removeMarker => ∀ m, d.root.current.marker = some m → d.Out m.username m.hostId
  | .removeStages => d.root.current.marker = none
  | .syncRoot => d.root.current.marker = none

def CauseOk (d : Disk) : Cause → Prop
  | .startup => True
  | .restore n i => d.names i = some n ∧ d.reports i ≠ some true ∧ d.Out n i
  | .failure i => i < d.nextOp

def PhaseOk (d : Disk) : Phase → Prop
  | .down => True
  | .idle => True
  | .recovering cause pc => CauseOk d cause ∧ RecoverOk d pc
  | .publishing n i pc => d.names i = some n ∧ d.reports i ≠ some true ∧ PublishOk d n i pc

/-- What holds between two steps. -/
structure Inv (s : State) : Prop where
  core : Core s.toDisk
  phase : PhaseOk s.toDisk s.phase

/-- The sync that makes the commit durable is next. -/
def Phase.committing : Phase → Bool
  | .publishing _ _ .syncCommit => true
  | _ => false

def Phase.removingUser : Phase → Bool
  | .recovering _ .removeUser => true
  | _ => false

def Phase.removingAccount : Phase → Bool
  | .recovering _ .removeAccount => true
  | _ => false

/-- What the code does not see to: nobody registers under the name of a marker that may still be
there; the sync after the commit succeeds; what a rollback removes is gone; and a loss of power
brings nothing back that was removed. -/
def Meets (s : State) : Action → Prop
  | .register n _ _ => ∀ r ∈ s.root.versions, ∀ m ∈ r.marker, m.username ≠ n
  | .io io =>
    (s.phase.committing = true → io = .ok) ∧
    (s.phase.removingUser = true → ∀ m ∈ s.root.current.marker,
      (State.dropDir (s.users m.username) io).current = none) ∧
    (s.phase.removingAccount = true → ∀ m ∈ s.root.current.marker,
      (State.dropDir (s.accounts m.hostId) io).current = none)
  | .crash loss =>
    (∀ p ∈ loss.users, ((s.users p.1).pick (loss.user p.1)).current ∈ (s.users p.1).recent) ∧
      ∀ p ∈ loss.accounts, ((s.accounts p.1).pick (loss.account p.1)).current ∈
        (s.accounts p.1).recent
  | _ => True

instance (s : State) (a : Action) : Decidable (Meets s a) := by
  cases a <;> unfold Meets <;> infer_instance

/-! ### Every step keeps the invariant -/

variable {s : State} {cause : Cause} {io : Io} {n : String} {i : ℕ}

theorem inv_finish_false (h : Core s.toDisk) (hi : i < s.nextOp) : Inv (s.finish i false) :=
  ⟨h.report_false hi, trivial⟩

theorem inv_abort (h : Core s.toDisk) (hc : CauseOk s.toDisk cause) : Inv (s.abort cause) := by
  cases cause with
  | startup => exact ⟨h, trivial⟩
  | restore n i => exact inv_finish_false h (h.named i n hc.1)
  | failure i => exact inv_finish_false h hc

theorem inv_recovered (h : Core s.toDisk) (hc : CauseOk s.toDisk cause) :
    Inv (s.recovered cause) := by
  cases cause with
  | startup => exact ⟨h, trivial⟩
  | restore n i => exact ⟨h, hc.1, hc.2.1, hc.2.2⟩
  | failure i => exact inv_finish_false h hc

variable {d : Disk}

theorem Disk.Out.of_back {d' : Disk} (h : d.Out n i)
    (hu : ∀ v ∈ (d'.users n).recent, v ∈ (d.users n).recent ∨ v = none)
    (ha : ∀ v ∈ (d'.accounts i).recent, v ∈ (d.accounts i).recent ∨ v = none) : d'.Out n i := by
  constructor
  · intro v hv e he
    rcases hu v hv with hv | hv
    · exact h.1 v hv e he
    · rw [hv] at he
      cases he
  · intro v hv
    exact (ha v hv).elim (h.2 v) id

theorem CauseOk.of_back {d d' : Disk} (h : CauseOk d cause) (hn : d'.names = d.names)
    (hr : d'.reports = d.reports) (ho : d'.nextOp = d.nextOp)
    (hu : ∀ n, ∀ v ∈ (d'.users n).recent, v ∈ (d.users n).recent ∨ v = none)
    (ha : ∀ i, ∀ v ∈ (d'.accounts i).recent, v ∈ (d.accounts i).recent ∨ v = none) :
    CauseOk d' cause := by
  cases cause with
  | startup => trivial
  | restore n i =>
    obtain ⟨hname, hrep, hout⟩ := h
    exact ⟨hn ▸ hname, hr ▸ hrep, hout.of_back (hu n) (ha i)⟩
  | failure i => exact lt_of_lt_of_eq h ho.symm

variable {κ : Type} {c : Cell (Option Entry)}

theorem mem_recent_update [DecidableEq κ] {f k} (hc : c.current = none) (k' : κ) (v)
    (hv : v ∈ (update f k c k').recent) : v ∈ (f k').recent ∨ v = none := by
  by_cases hk : k' = k
  · subst hk
    rw [update_self] at hv
    exact .inr ((mem_recent_of_absent hc).mp hv)
  · rw [update_of_ne hk] at hv
    exact .inl hv

/-- A step fails in a way that is dealt with, or goes on. -/
theorem inv_ite {p : Prop} [Decidable p] {t} (hs : Inv s) (ht : ¬ p → Inv t) :
    Inv (if p then s else t) := by
  split_ifs with h
  · exact hs
  · exact ht h

theorem inv_recoverStep (h : Core s.toDisk) (hc : CauseOk s.toDisk cause) {pc}
    (hpc : RecoverOk s.toDisk pc) (hp : s.phase = .recovering cause pc) (hm : Meets s (.io io)) :
    Inv (s.recoverStep cause io pc) := by
  obtain ⟨-, hmu, hma⟩ := hm
  rw [hp] at hmu hma
  cases pc with
  | removeCompleted =>
    have hafter : ∀ d : Disk, d.root.current.marker = s.root.current.marker →
        RecoverOk d (afterCompleted s.root.current.marker) := by
      intro d hd
      cases hmk : s.root.current.marker with
      | none => exact hd.trans hmk
      | some m =>
        have hcomp := (h.marked _ s.root.current_mem m hmk).1
        simp only [afterCompleted, hcomp]
        trivial
    rw [recoverStep]
    refine inv_ite (inv_abort h hc) fun _ => ?_
    by_cases hdone : s.root.current.completed = true
    · simp only [hdone, if_true]
      exact ⟨h.root_uncomplete, hc.of_back rfl rfl rfl (fun _ _ hv => .inl hv)
        (fun _ _ hv => .inl hv), hafter _ rfl⟩
    · simp only [hdone]
      exact ⟨h, hc, hafter _ rfl⟩
  | removeUser =>
    rw [recoverStep]
    cases hmk : s.root.current.marker with
    | none => exact ⟨h, hc, hmk⟩
    | some m =>
      have hgone := hmu rfl m hmk
      refine ⟨h.user_drop hmk hgone, hc.of_back rfl rfl rfl (mem_recent_update hgone)
        (fun _ _ hv => .inl hv), ?_⟩
      intro m' hm' v hv
      obtain rfl : m = m' := mem_unique hmk hm'
      simp only [setUser] at hv
      rw [update_self] at hv
      exact (mem_recent_of_absent hgone).mp hv
  | removeAccount =>
    rw [recoverStep]
    cases hmk : s.root.current.marker with
    | none => exact ⟨h, hc, hmk⟩
    | some m =>
      have hgone := hma rfl m hmk
      refine ⟨h.account_drop hmk hgone, hc.of_back rfl rfl rfl (fun _ _ hv => .inl hv)
        (mem_recent_update hgone), ?_⟩
      intro m' hm'
      obtain rfl : m = m' := mem_unique hmk hm'
      constructor
      · intro v hv e he
        rw [hpc m hmk v hv] at he
        cases he
      · intro v hv
        simp only [setAccount] at hv
        rw [update_self] at hv
        exact (mem_recent_of_absent hgone).mp hv
  | removeMarker =>
    rw [recoverStep]
    refine inv_ite (inv_abort h hc) fun _ => ?_
    exact ⟨h.root_clear rfl fun m hmk => .inr (hpc m hmk), hc.of_back rfl rfl rfl
      (fun _ _ hv => .inl hv) (fun _ _ hv => .inl hv), rfl⟩
  | removeStages =>
    rw [recoverStep]
    refine inv_ite (inv_abort h hc) fun _ => ?_
    exact ⟨h, hc, hpc⟩
  | syncRoot =>
    rw [recoverStep]
    refine inv_ite (inv_abort h hc) fun _ => ?_
    exact inv_recovered h.root_sync
      (hc.of_back rfl rfl rfl (fun _ _ hv => .inl hv) (fun _ _ hv => .inl hv))

theorem Disk.Marks.only (h : d.Marks n i) : d.OnlyMarked i :=
  fun r hr => ⟨_, h r hr, rfl⟩

theorem Core.user_publish (h : Core d) (hmarks : d.Marks n i) (hname : d.names i = some n)
    (hout : d.Out n i) :
    Core { d with users := update d.users n ((d.users n).write (some ⟨i, true⟩)) } := by
  obtain ⟨-, -, -, hown⟩ := h.marked _ d.root.current_mem _ (hmarks _ d.root.current_mem)
  have hnone : ∀ v ∈ (d.users n).recent, ∀ e, v ≠ some e := fun v hv e he =>
    hout.1 v hv e he (hown v hv e he)
  have hwritten : ∀ v ∈ ((d.users n).write (some ⟨i, true⟩)).recent, ∀ e, v = some e →
    e = ⟨i, true⟩ := by
    intro v hv e he
    rcases mem_recent_write_some.mp hv with hv | hv
    · exact mem_unique he hv
    · exact absurd he (hnone v hv e)
  refine h.user_change ?_ ?_ ?_ ?_
  · intro v hv e he
    rw [hwritten v hv e he]
    refine ⟨h.named i n hname, fun n' hn' => ?_⟩
    exact mem_unique hn' hname
  · intro r hr m hm _ v hv e he
    rw [hmarks r hr] at hm
    cases hm
    rw [hwritten v hv e he]
  · intro j hj ho
    by_cases hji : j = i
    · subst hji
      exact .inl hmarks.only
    · refine .inr fun v hv e he => ?_
      rw [hwritten v hv e he]
      exact fun hij => hji hij.symm
  · intro j hj hi
    have hcur := hi.1 _ (d.users n).current_mem_recent
    exact absurd hcur (hnone _ (d.users n).current_mem_recent _)

theorem Core.account_publish (h : Core d) (hmarks : d.Marks n i) (hname : d.names i = some n)
    (hrep : d.reports i ≠ some true) :
    Core { d with
      accounts := update d.accounts i ((d.accounts i).write (some ⟨i, true⟩)) } := by
  refine h.account_change ?_ (fun _ _ => .inl hmarks.only) fun _ => hrep
  intro v hv e he
  rcases mem_recent_write_some.mp hv with hv | hv
  · cases he.symm.trans hv
    exact ⟨rfl, h.named i n hname⟩
  · exact h.accounts i v hv e he

section

variable (h : Core s.toDisk)
include h

theorem inv_rollBack (hname : s.names i = some n) : Inv (s.rollBack i) :=
  ⟨h, h.named i n hname, trivial⟩

theorem inv_publishStep (hname : s.names i = some n)
    (hrep : s.reports i ≠ some true) {pc} (hpc : PublishOk s.toDisk n i pc)
    (hp : s.phase = .publishing n i pc) (hm : Meets s (.io io)) :
      Inv (s.publishStep n i io pc) := by
  have hlt := h.named i n hname
  obtain ⟨hmc, -, -⟩ := hm
  rw [hp] at hmc
  cases pc with
  | persistMarker =>
    rw [publishStep]
    refine inv_ite (inv_finish_false h hlt) fun hbad => ?_
    simp only [not_or, Bool.not_eq_true, isSome_eq_false_iff, isNone_iff_eq_none] at hbad
    exact ⟨h.root_mark hbad.2.2.1 hname hrep hbad.1 hpc, hname, hrep, hpc, rfl⟩
  | syncMarker =>
    rw [publishStep]
    refine inv_ite (inv_finish_false h hlt) fun _ => ?_
    refine ⟨h.root_sync, hname, hrep, fun r hr => ?_, hpc.1⟩
    rw [mem_sync.mp hr]
    exact hpc.2
  | renameCredentials =>
    rw [publishStep]
    refine inv_ite (inv_rollBack h hname) fun _ => ?_
    refine ⟨h.user_publish hpc.1 hname hpc.2, hname, hrep, hpc.1, ?_, hpc.2.2⟩
    simp [setUser]
  | syncUsers =>
    rw [publishStep]
    refine inv_ite (inv_rollBack h hname) fun _ => ?_
    refine ⟨h.entries_back (fun n' v hv => ?_) (fun _ _ => id), hname, hrep, hpc.1, ?_, hpc.2.2⟩
    · rw [mem_recent_sync.mp hv]
      exact (s.users n').current_mem_recent
    · intro v hv
      rw [mem_recent_sync.mp hv]
      exact hpc.2.1
  | renameProfile =>
    rw [publishStep]
    refine inv_ite (inv_rollBack h hname) fun _ => ?_
    refine ⟨h.account_publish hpc.1 hname hrep, hname, hrep, hpc.1, hpc.2.1, ?_⟩
    simp [setAccount]
  | syncAccounts =>
    rw [publishStep]
    refine inv_ite (inv_rollBack h hname) fun _ => ?_
    refine ⟨h.entries_back (fun _ _ => id) (fun i' v hv => ?_), hname, hrep, hpc.1, hpc.2.1, ?_⟩
    · rw [mem_recent_sync.mp hv]
      exact (s.accounts i').current_mem_recent
    · intro v hv
      rw [mem_recent_sync.mp hv]
      exact hpc.2.2
  | renameMarker =>
    rw [publishStep]
    refine inv_ite (inv_rollBack h hname) fun _ => ?_
    refine ⟨h.root_clear rfl fun m hmk => .inl ?_, hname, hrep, rfl, hpc.2⟩
    rw [hpc.1 _ s.root.current_mem] at hmk
    cases hmk
    exact hpc.2
  | syncCommit =>
    rw [publishStep]
    simp only [hmc rfl, if_true]
    refine ⟨h.root_sync, hname, hrep, fun r hr => ?_, hpc.2⟩
    rw [mem_sync.mp hr]
    exact hpc.1
  | removeCompleted =>
    rw [publishStep]
    by_cases hok : io = .ok
    · simp only [hok, if_true]
      refine ⟨h.root_uncomplete, hname, hrep, fun r hr => ?_, hpc.2⟩
      rcases mem_write.mp hr with rfl | hr
      · exact hpc.1 s.root.current s.root.current_mem
      · exact hpc.1 r hr
    · simp only [hok, if_false]
      exact ⟨h, hname, hrep, hpc.1, hpc.2⟩
  | syncRoot =>
    rw [publishStep]
    by_cases hok : io = .ok
    · simp only [hok, if_true]
      refine ⟨h.root_sync.report_true hpc.2 hname fun r hr => ?_, trivial⟩
      rw [mem_sync.mp hr]
      exact hpc.1 _ s.root.current_mem
    · simp only [hok, if_false]
      exact ⟨h.report_true hpc.2 hname hpc.1, trivial⟩

theorem inv_register (hp : s.phase = .idle) {sync}
    (hfree : ∀ r ∈ s.root.versions, ∀ m, r.marker = some m → m.username ≠ n) :
    Inv (s.register n io sync) := by
  unfold register
  by_cases hbad : (s.users n).current.isSome = true ∨ io ≠ .ok
  · rw [if_pos hbad]
    exact ⟨h.op_plain, by rw [hp]; trivial⟩
  · rw [if_neg hbad]
    simp only [not_or, Bool.not_eq_true, isSome_eq_false_iff, isNone_iff_eq_none] at hbad
    have hwritten : ∀ v ∈ ((s.users n).write (some ⟨s.nextOp, true⟩)).recent, ∀ e, v = some e →
        e = ⟨s.nextOp, true⟩ := by
      intro v hv e he
      rcases mem_recent_write_some.mp hv with hv | hv
      · exact mem_unique he hv
      · rw [(mem_recent_of_absent hbad.1).mp hv] at he
        cases he
    have hcore : Core { s.toDisk with
        nextOp := s.nextOp + 1
        users := update s.users n ((s.users n).write (some ⟨s.nextOp, true⟩)) } := by
      refine h.op_plain.user_change ?_ ?_ ?_ ?_
      · intro v hv e he
        rw [hwritten v hv e he]
        refine ⟨Nat.lt_succ_self _, fun n' hn' => ?_⟩
        exact absurd (h.named _ _ hn') (Nat.lt_irrefl _)
      · exact fun r hr m hm hn => absurd hn (hfree r hr m hm)
      · intro j hj _
        refine .inr fun v hv e he => ?_
        rw [hwritten v hv e he]
        exact Nat.ne_of_gt (h.named j n hj)
      · intro j hj hi
        have hcur := hi.1 _ (s.users n).current_mem_recent
        rw [hbad.1] at hcur
        cases hcur
    by_cases hs : sync = .ok
    · simp only [hs, if_true]
      refine ⟨hcore.entries_back (fun n' v hv => ?_) (fun _ _ => id), ?_⟩
      · rw [mem_recent_sync.mp hv]
        exact current_mem_recent _
      · show PhaseOk _ s.phase
        rw [hp]
        trivial
    · simp only [hs, if_false]
      refine ⟨hcore, ?_⟩
      show PhaseOk _ s.phase
      rw [hp]
      trivial

theorem inv_openAccount (hp : s.phase = .idle) : Inv (s.openAccount i io) := by
  unfold openAccount
  by_cases hbad : (s.accounts i).current.isSome = true ∨ s.nextOp ≤ i ∨
      (s.names i).isSome = true ∨ io ≠ .ok
  · rw [if_pos hbad]
    exact ⟨h, by rw [hp]; trivial⟩
  · rw [if_neg hbad]
    simp only [not_or, Bool.not_eq_true, isSome_eq_false_iff, isNone_iff_eq_none,
      Nat.not_le] at hbad
    obtain ⟨-, hlt, hnone, -⟩ := hbad
    refine ⟨h.account_change ?_ ?_ ?_, ?_⟩
    · intro v hv e he
      rcases mem_recent_write_some.mp hv with hv | hv
      · cases he.symm.trans hv
        exact ⟨rfl, hlt⟩
      · exact h.accounts i v hv e he
    · intro n' hn'
      rw [hnone] at hn'
      cases hn'
    · exact fun hne => absurd hnone hne
    · show PhaseOk _ s.phase
      rw [hp]
      trivial

end

theorem pick_recent [BEq κ] [LawfulBEq κ] {l : List (κ × ℕ)} {f : κ → Cell (Option Entry)}
    (h : ∀ p ∈ l, ((f p.1).pick ((l.lookup p.1).getD 0)).current ∈ (f p.1).recent) (k) :
    ((f k).pick ((l.lookup k).getD 0)).current ∈ (f k).recent := by
  cases hk : l.lookup k with
  | none => exact (f k).current_mem_recent
  | some v =>
    obtain ⟨l₁, l₂, hl, -⟩ := List.lookup_eq_some_iff.mp hk
    have hin := h (k, v) (hl ▸ List.mem_append_right _ List.mem_cons_self)
    simp only [hk] at hin
    exact hin

theorem inv_crash (h : Core s.toDisk) {loss : Loss} (hm : Meets s (.crash loss)) :
    Inv (s.crash loss) := by
  refine ⟨(h.root_pick loss.root).entries_back (fun n' v hv => ?_) (fun i' v hv => ?_), trivial⟩
  · rw [mem_recent_pick.mp hv]
    exact pick_recent hm.1 n'
  · rw [mem_recent_pick.mp hv]
    exact pick_recent hm.2 i'

/-- **Every step that meets the condition keeps the invariant.** -/
theorem inv_step (h : Inv s) (a) (hm : Meets s a) : Inv (s.step a) := by
  have hphase := h.phase
  unfold step
  split
  next hp => exact ⟨h.core, trivial, trivial⟩
  next n hp =>
    obtain ⟨hcore, hout⟩ := h.core.op_named n
    refine ⟨hcore, ⟨?_, ?_, hout⟩, trivial⟩
    · exact update_self _ _ _
    · exact fun ht => absurd (h.core.done _ _ ht) (Nat.lt_irrefl _)
  next n hp =>
    obtain ⟨hcore, hout⟩ := h.core.op_named n
    refine ⟨hcore, ?_, ?_, hout⟩
    · exact update_self _ _ _
    · exact fun ht => absurd (h.core.done _ _ ht) (Nat.lt_irrefl _)
  next n io sync hp => exact inv_register h.core hp hm
  next i io hp => exact inv_openAccount h.core hp
  next cause pc io hp =>
    rw [hp] at hphase
    exact inv_recoverStep h.core hphase.1 hphase.2 hp hm
  next n i pc io hp =>
    rw [hp] at hphase
    exact inv_publishStep h.core hphase.1 hphase.2.1 hphase.2.2 hp hm
  next loss => exact inv_crash h.core hm
  next => exact h

theorem inv_run {as} (h : Along step Meets init as) :
    Inv (as.foldl step init) :=
  Along.inv (I := Inv) (fun _ a hi hm => inv_step hi a hm) ⟨Core.init, trivial⟩ h

/-! ### All or nothing -/

/-- A recovery at start-up that gets to its end leaves no marker. -/
theorem startup_clears (h : Inv s) {pc} (hp : s.phase = .recovering .startup pc)
    (hidle : (s.step (.io io)).phase = .idle) : (s.step (.io io)).root.current.marker = none := by
  have hphase := h.phase
  rw [hp] at hphase
  have hstep : s.step (.io io) = s.recoverStep .startup io pc := by
    unfold step
    rw [hp]
  rw [hstep] at hidle ⊢
  cases pc with
  | removeUser | removeAccount =>
    rw [recoverStep] at hidle
    split at hidle <;> cases hidle
  | removeCompleted | removeMarker | removeStages =>
    rw [recoverStep] at hidle
    split_ifs at hidle
    cases hidle
  | syncRoot =>
    rw [recoverStep] at hidle ⊢
    split_ifs at hidle ⊢ with hok
    · cases hidle
    · exact hphase.2

theorem abort_frame (s : State) (cause) :
    (s.abort cause).users = s.users ∧ (s.abort cause).accounts = s.accounts := by
  cases cause <;> exact ⟨rfl, rfl⟩

theorem recovered_frame (s : State) (cause) :
    (s.recovered cause).users = s.users ∧ (s.recovered cause).accounts = s.accounts := by
  cases cause <;> exact ⟨rfl, rfl⟩

/-- A recovery touches the directories its marker names only. -/
theorem recoverStep_frame (s : State) (cause : Cause) (io pc) :
    (∀ n, ((s.recoverStep cause io pc).users n).current = (s.users n).current ∨
      ∃ m, s.root.current.marker = some m ∧ m.username = n) ∧
    ∀ i, ((s.recoverStep cause io pc).accounts i).current = (s.accounts i).current ∨
      ∃ m, s.root.current.marker = some m ∧ m.hostId = i := by
  cases pc with
  | removeUser =>
    rw [recoverStep]
    cases hmk : s.root.current.marker with
    | none => exact ⟨fun _ => .inl rfl, fun _ => .inl rfl⟩
    | some m =>
      refine ⟨fun n => ?_, fun _ => .inl rfl⟩
      by_cases hn : n = m.username
      · exact .inr ⟨m, rfl, hn.symm⟩
      · refine .inl ?_
        simp only [setUser]
        rw [update_of_ne hn]
  | removeAccount =>
    rw [recoverStep]
    cases hmk : s.root.current.marker with
    | none => exact ⟨fun _ => .inl rfl, fun _ => .inl rfl⟩
    | some m =>
      refine ⟨fun _ => .inl rfl, fun i => ?_⟩
      by_cases hi : i = m.hostId
      · exact .inr ⟨m, rfl, hi.symm⟩
      · refine .inl ?_
        simp only [setAccount]
        rw [update_of_ne hi]
  | _ =>
    rw [recoverStep]
    split_ifs <;> simp [abort_frame, recovered_frame]

/-- A write where nothing is leaves every other entry as it is. -/
theorem current_update_of_absent [DecidableEq κ] {f : κ → Cell (Option Entry)} {k k' e}
    (hk : (f k).current = none) (he : (f k').current = some e) :
    (update f k c k').current = some e := by
  rw [update_of_ne]
  · exact he
  · rintro rfl
    rw [hk] at he
    cases he

theorem publishStep_keeps (h : Core s.toDisk) {pc} (hpc : PublishOk s.toDisk n i pc) (io) :
    (∀ n' e, (s.users n').current = some e →
      ((s.publishStep n i io pc).users n').current = some e) ∧
    ∀ i' e, (s.accounts i').current = some e →
      ((s.publishStep n i io pc).accounts i').current = some e := by
  cases pc with
  | renameCredentials =>
    have habsent : (s.users n).current = none := by
      obtain ⟨-, -, -, hown⟩ := h.marked _ s.root.current_mem _ (hpc.1 _ s.root.current_mem)
      have hmem := (s.users n).current_mem_recent
      cases hcur : (s.users n).current with
      | none => rfl
      | some e => exact absurd (hown _ hmem e hcur) (hpc.2.1 _ hmem e hcur)
    rw [publishStep]
    split_ifs
    · exact ⟨fun _ _ => id, fun _ _ => id⟩
    · exact ⟨fun _ _ he => current_update_of_absent habsent he, fun _ _ => id⟩
  | renameProfile =>
    have habsent : (s.accounts i).current = none := hpc.2.2 _ (s.accounts i).current_mem_recent
    rw [publishStep]
    split_ifs
    · exact ⟨fun _ _ => id, fun _ _ => id⟩
    · exact ⟨fun _ _ => id, fun _ _ he => current_update_of_absent habsent he⟩
  | syncCommit | removeCompleted | syncRoot => exact ⟨fun _ _ => id, fun _ _ => id⟩
  | _ =>
    rw [publishStep]
    split_ifs <;> exact ⟨fun _ _ => id, fun _ _ => id⟩

/-- **Only a rollback removes**, and only what is of the publication whose marker it found. -/
theorem step_removes (h : Inv s) (a) (hc : ∀ loss, a ≠ .crash loss) :
    (∀ n e, (s.users n).current = some e → ((s.step a).users n).current = some e ∨
      ∃ m, s.root.current.marker = some m ∧ m.hostId = e.op ∧ s.reports e.op ≠ some true) ∧
    ∀ i e, (s.accounts i).current = some e → ((s.step a).accounts i).current = some e ∨
      ∃ m, s.root.current.marker = some m ∧ m.hostId = e.op ∧ s.reports e.op ≠ some true := by
  have hphase := h.phase
  unfold step
  split
  next hp => exact ⟨fun _ _ he => .inl he, fun _ _ he => .inl he⟩
  next n hp => exact ⟨fun _ _ he => .inl he, fun _ _ he => .inl he⟩
  next n hp => exact ⟨fun _ _ he => .inl he, fun _ _ he => .inl he⟩
  next n io sync hp =>
    unfold register
    split_ifs with hbad hsync
    · exact ⟨fun _ _ he => .inl he, fun _ _ he => .inl he⟩
    all_goals
      simp only [not_or, Bool.not_eq_true, isSome_eq_false_iff, isNone_iff_eq_none] at hbad
      exact ⟨fun _ _ he => .inl (current_update_of_absent hbad.1 he), fun _ _ he => .inl he⟩
  next i io hp =>
    unfold openAccount
    split_ifs with hbad
    · exact ⟨fun _ _ he => .inl he, fun _ _ he => .inl he⟩
    · simp only [not_or, Bool.not_eq_true, isSome_eq_false_iff, isNone_iff_eq_none] at hbad
      exact ⟨fun _ _ he => .inl he, fun _ _ he => .inl (current_update_of_absent hbad.1 he)⟩
  next cause pc io hp =>
    obtain ⟨hu, ha⟩ := recoverStep_frame s cause io pc
    constructor
    · intro n e he
      rcases hu n with hsame | ⟨m, hm, rfl⟩
      · exact .inl (hsame.trans he)
      · obtain ⟨-, -, hrep, hown⟩ := h.core.marked _ s.root.current_mem m hm
        have hop := hown _ (s.users m.username).current_mem_recent e he
        exact .inr ⟨m, hm, hop.symm, hop ▸ hrep⟩
    · intro i e he
      rcases ha i with hsame | ⟨m, hm, rfl⟩
      · exact .inl (hsame.trans he)
      · obtain ⟨-, -, hrep, -⟩ := h.core.marked _ s.root.current_mem m hm
        have hop := (h.core.accounts m.hostId _ (s.accounts m.hostId).current_mem_recent e he).1
        exact .inr ⟨m, hm, hop.symm, hop ▸ hrep⟩
  next n i pc io hp =>
    rw [hp] at hphase
    obtain ⟨hu, ha⟩ := publishStep_keeps h.core hphase.2.2 io
    exact ⟨fun n' e he => .inl (hu n' e he), fun i' e he => .inl (ha i' e he)⟩
  next loss => exact absurd rfl (hc loss)
  next => exact ⟨fun _ _ he => .inl he, fun _ _ he => .inl he⟩

/-- **A publication is all or nothing.** In every run whose steps meet the condition, of restores,
enrolments, registrations and starts, with file operations that fail and losses of power: where no
marker is, as after every start-up recovery that gets to its end, both directories of a publication
are there whole or neither is; they are there if the call reported success; and no step removes a
directory but the rollback of the very publication it is from, which has not reported success. -/
theorem published_whole (as : List Action) (hrun : Along State.step Meets State.init as) (s : State)
    (hs : as.foldl State.step State.init = s) :
    (s.root.current.marker = none → ∀ i n, s.names i = some n →
      ((s.users n).current = some ⟨i, true⟩ ∧ (s.accounts i).current = some ⟨i, true⟩) ∨
      ((∀ e, (s.users n).current = some e → e.op ≠ i) ∧ (s.accounts i).current = none)) ∧
    (∀ pc io, s.phase = .recovering .startup pc → (s.step (.io io)).phase = .idle →
      (s.step (.io io)).root.current.marker = none) ∧
    (∀ i n, s.names i = some n → s.reports i = some true →
      (s.users n).current = some ⟨i, true⟩ ∧ (s.accounts i).current = some ⟨i, true⟩) ∧
    ∀ a, (∀ loss, a ≠ .crash loss) →
      (∀ n e, (s.users n).current = some e → ((s.step a).users n).current = some e ∨
        ∃ m, s.root.current.marker = some m ∧ m.hostId = e.op ∧ s.reports e.op ≠ some true) ∧
      ∀ i e, (s.accounts i).current = some e → ((s.step a).accounts i).current = some e ∨
        ∃ m, s.root.current.marker = some m ∧ m.hostId = e.op ∧ s.reports e.op ≠ some true := by
  have h : Inv s := hs ▸ inv_run hrun
  have hin : ∀ {n i}, s.In n i →
      (s.users n).current = some ⟨i, true⟩ ∧ (s.accounts i).current = some ⟨i, true⟩ := fun hi =>
    ⟨hi.1 _ (s.users _).current_mem_recent, hi.2 _ (s.accounts _).current_mem_recent⟩
  refine ⟨fun hm i n hn => ?_, fun pc io hp hidle => startup_clears h hp hidle,
    fun i n hn ht => hin (h.core.reported i n hn ht), fun a hc => step_removes h a hc⟩
  rcases h.core.settled_of_unmarked hm hn with hi | ho
  · exact .inl (hin hi)
  · exact .inr ⟨fun e he => ho.1 _ (s.users n).current_mem_recent e he,
      ho.2 _ (s.accounts i).current_mem_recent⟩

/-! ### Runs -/

def quietStart : List Action := [.start, .io .ok, .io .ok, .io .ok]

/-- The folders after a restore that is rolled back, an enrolment under the same name, and a loss of
power that takes the root back as far as it can go. -/
def sampleRun : List Action :=
  quietStart ++ [.restore "alice", .io .ok, .io .ok, .io .ok, .io .ok, .io .ok, .io .ok, .io .ok,
      .io .fails] ++
    [.io .ok, .io .ok, .io .ok, .io .ok, .io .ok, .io .ok] ++
    (.enroll "alice" :: List.replicate 10 (.io .ok)) ++
    [.crash ⟨3, [("alice", 3)], [(1, 2)]⟩] ++ quietStart

/-- The run meets the condition, and its second publication is in place. -/
theorem published_whole_sample : ∃ s, sampleRun.foldl State.step State.init = s ∧
    (s.users "alice").current = some ⟨1, true⟩ ∧ (s.accounts 1).current = some ⟨1, true⟩ ∧
    (s.accounts 0).current = none := by
  refine ⟨_, rfl, ?_⟩
  obtain ⟨hpair, -, hreport, -⟩ := published_whole sampleRun (by decide +kernel) _ rfl
  obtain ⟨hu, ha⟩ := hreport 1 "alice" (by decide +kernel) (by decide +kernel)
  rcases hpair (by decide +kernel) 0 "alice" (by decide +kernel) with ⟨h0, -⟩ | ⟨-, h0⟩
  · rw [hu] at h0
    cases h0
  · exact ⟨hu, ha, h0⟩

/-- A restore whose marker could not be synced reports an error and leaves the marker. Alice
registers, and the next start is about to roll the marker back. -/
def leftBehind : List Action :=
  quietStart ++ [.enroll "alice", .io .ok, .io .fails, .register "alice" .ok .ok,
    .crash ⟨0, [], []⟩, .start, .io .ok]

/-- An enrolment whose commit could not be synced reports success. The power is lost, and the next
start finds the marker. -/
def uncommitted : List Action :=
  quietStart ++ (.enroll "alice" :: List.replicate 7 (.io .ok)) ++
    [.io .fails, .io .fails, .io .fails, .crash ⟨1, [], []⟩, .start] ++
    List.replicate 6 (.io .ok)

/-- An enrolment fails between its two renames, and its clean-up removes a part of the credentials
only. -/
def halfRemoved : List Action :=
  quietStart ++ [.enroll "alice", .io .ok, .io .ok, .io .ok, .io .ok, .io .fails] ++
    [.io .ok, .io .failsPart, .io .ok, .io .ok, .io .ok, .io .ok, .crash ⟨0, [], []⟩] ++ quietStart

/-- **Without the condition.** The marker an earlier call left behind removes the directory of a
user that registered since; a publication that reported success is rolled back; and of a publication
that failed a part stays. -/
theorem marker_left_behind :
    (∃ s, leftBehind.foldl State.step State.init = s ∧ (s.users "alice").current = some ⟨1, true⟩ ∧
      s.names 1 = none ∧ ((s.step (.io .ok)).users "alice").current = none) ∧
    (∃ s, uncommitted.foldl State.step State.init = s ∧ s.phase = .idle ∧
      s.names 0 = some "alice" ∧ s.reports 0 = some true ∧ (s.users "alice").current = none ∧
      (s.accounts 0).current = none) ∧
    ∃ s, halfRemoved.foldl State.step State.init = s ∧ s.phase = .idle ∧
      s.root.current.marker = none ∧ s.names 0 = some "alice" ∧
      (s.users "alice").current = some ⟨0, false⟩ ∧ (s.accounts 0).current = none := by
  refine ⟨⟨_, rfl, ?_⟩, ⟨_, rfl, ?_⟩, ⟨_, rfl, ?_⟩⟩ <;> decide +kernel

end MeshTalk.Recovery
