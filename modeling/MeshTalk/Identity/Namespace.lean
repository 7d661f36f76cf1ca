import MeshTalk.Identity.Login
import Mathlib.Tactic.Linarith

/-! # The login namespace

Directory names and aliases are one namespace, kept by separate checks in registration, installation
and the publication of a staged user. `Inv` is what they keep together: aliases are distinct, and no
alias is the directory of another user. Under it all envelopes can be read (`envelopes_ok`), and
whether somebody signs in as a user depends on the directory of that user only (`signIn_iff`). -/

namespace MeshTalk.Identity

open MeshTalk.Lib UserDir List Table

variable [Texts] {us us' : Users} {u n s l p : String} {d : UserDir} {e : Envelope}

/-! ### The invariant -/

def HasEnvelope (us : Users) (n : String) (e : Envelope) : Prop :=
  ∃ d, us.get n = some d ∧ d.accountLogin = some e

structure UserDir.Ok (n : String) (d : UserDir) : Prop where
  user : ∀ f, d.userJson = some f → f.content.username = n
  envelope : ∀ e, d.accountLogin = some e → e.readable n = true

/-- Directory names and aliases are unambiguous. -/
structure Inv (us : Users) : Prop where
  valid : ∀ n d, us.get n = some d → validateUsername n = true
  dirs : ∀ n d, us.get n = some d → d.Ok n
  distinct : ∀ n e n' e', HasEnvelope us n e → HasEnvelope us n' e' →
    e.binding.loginName = e'.binding.loginName → n = n'
  alias_free : ∀ n e, HasEnvelope us n e → e.binding.loginName ≠ n →
    us.get e.binding.loginName = none

theorem inv_empty : Inv (∅ : Users) := by
  refine ⟨nofun, nofun, ?_, ?_⟩
  · rintro n e n' e' ⟨d, hd, -⟩
    cases hd
  · rintro n e ⟨d, hd, -⟩
    cases hd

theorem readable_iff : e.readable n = true ↔ e.size ≤ maxEnvelopeBytes ∧
    e.binding.version = envelopeVersion ∧ e.binding.storageUsername = n ∧
    validateUsername e.binding.loginName = true ∧ validateUserId e.binding.localUserId = true ∧
    validAccountId e.binding.accountId = true := by
  simp only [Envelope.readable, Bool.and_eq_true, decide_eq_true_eq, and_assoc]

section

variable (hi : Inv us)
include hi

theorem Inv.readable (h : HasEnvelope us n e) : e.readable n = true := by
  obtain ⟨d, hd, he⟩ := h
  exact (hi.dirs n d hd).envelope e he

theorem Inv.storage (h : HasEnvelope us n e) : e.binding.storageUsername = n :=
  (readable_iff.mp (hi.readable h)).2.2.1

/-! ### All envelopes can be read -/

theorem Inv.readAccountLogin (n) : readAccountLogin us n = .ok ((us.get n).bind accountLogin) := by
  unfold Identity.readAccountLogin
  cases he : (us.get n).bind accountLogin with
  | none => rfl
  | some e =>
    obtain ⟨d, hd, hde⟩ := Option.bind_eq_some_iff.mp he
    simp only [hi.readable ⟨d, hd, hde⟩, if_true]

/-- The envelopes of some users are read, if those that were found before are of other users. -/
theorem Inv.readEnvelopes : ∀ (names : List String) (found : List Envelope),
    names.Nodup → (∀ n ∈ names, ∃ d, us.get n = some d) →
    (∀ e ∈ found, ∃ n, HasEnvelope us n e ∧ n ∉ names) →
    ∃ es, readEnvelopes us found names = .ok es ∧
      ∀ e, e ∈ es ↔ e ∈ found ∨ ∃ n ∈ names, HasEnvelope us n e
  | [], found, _, _, _ => ⟨found, rfl, by simp⟩
  | n :: names, found, hnd, hin, hfound => by
    obtain ⟨hn, hnd⟩ := nodup_cons.mp hnd
    obtain ⟨d, hd⟩ := hin n mem_cons_self
    have hin' : ∀ m ∈ names, ∃ d, us.get m = some d := fun m hm =>
      hin m (mem_cons_of_mem _ hm)
    rw [Identity.readEnvelopes, if_pos (hi.valid n d hd), hi.readAccountLogin, hd]
    cases he : d.accountLogin with
    | none =>
      obtain ⟨es, hes, hmem⟩ := Inv.readEnvelopes names found hnd hin' fun e hf => by
        obtain ⟨m, hm, hnot⟩ := hfound e hf
        exact ⟨m, hm, fun h => hnot (mem_cons_of_mem _ h)⟩
      refine ⟨es, by simpa [he] using hes, fun e => ?_⟩
      have hnone : ¬ HasEnvelope us n e := by
        rintro ⟨d', hd', he'⟩
        rw [hd] at hd'
        cases hd'
        rw [he] at he'
        cases he'
      rw [hmem, exists_mem_cons_iff]
      simp only [hnone, false_or]
    | some e =>
      have hhas : HasEnvelope us n e := ⟨d, hd, he⟩
      -- nobody else has this alias, and it is nobody's directory
      have hnew : (found.any fun x => x.binding.loginName = e.binding.loginName) = false := by
        rw [Bool.eq_false_iff, ne_eq, any_eq_true]
        rintro ⟨x, hx, hlogin⟩
        obtain ⟨m, hm, hnot⟩ := hfound x hx
        rw [decide_eq_true_eq] at hlogin
        exact hnot (mem_cons.mpr (.inl (hi.distinct m x n e hm hhas hlogin)))
      have hfree : ¬ (e.binding.loginName ≠ n ∧ us.has e.binding.loginName = true) := by
        rintro ⟨hne, hhas'⟩
        rw [has_eq_true, hi.alias_free n e hhas hne] at hhas'
        obtain ⟨_, h⟩ := hhas'
        cases h
      obtain ⟨es, hes, hmem⟩ := Inv.readEnvelopes names (found ++ [e]) hnd hin' fun x hx => by
        rcases mem_append.mp hx with hx | hx
        · obtain ⟨m, hm, hnot⟩ := hfound x hx
          exact ⟨m, hm, fun h => hnot (mem_cons_of_mem _ h)⟩
        · rw [mem_singleton] at hx
          exact hx ▸ ⟨n, hhas, hn⟩
      refine ⟨es, by simpa [he, hnew, hfree] using hes, fun x => ?_⟩
      have honly : HasEnvelope us n x ↔ x = e := by
        constructor
        · rintro ⟨d', hd', hx⟩
          rw [hd] at hd'
          cases hd'
          rw [he] at hx
          cases hx
          rfl
        · rintro rfl
          exact hhas
      rw [hmem, mem_append, mem_singleton, exists_mem_cons_iff, honly, or_assoc]

/-- **All envelopes are read**, and are those the users have. -/
theorem Inv.envelopes_ok : ∃ es, accountLoginEnvelopes us = .ok es ∧
    ∀ e, e ∈ es ↔ ∃ n, HasEnvelope us n e := by
  obtain ⟨es, hes, hmem⟩ := hi.readEnvelopes (us.rows.map Prod.fst) [] us.nodup (fun n hn => by
      obtain ⟨⟨m, d⟩, hr, rfl⟩ := mem_map.mp hn
      exact ⟨d, get_eq_some.mpr hr⟩)
    nofun
  refine ⟨es, hes, fun e => ?_⟩
  rw [hmem]
  constructor
  · rintro (h | ⟨n, -, h⟩)
    · cases h
    · exact ⟨n, h⟩
  · rintro ⟨n, d, hd, he⟩
    exact .inr ⟨n, mem_map.mpr ⟨(n, d), get_eq_some.mp hd, rfl⟩, d, hd, he⟩

theorem Inv.available (h : ensureAccountLoginAvailable us s l = .ok ()) :
    validateUsername s = true ∧ validateUsername l = true ∧ (s = l ∨ us.get l = none) ∧
      ∀ m e, HasEnvelope us m e → e.binding.loginName = l → m = s := by
  obtain ⟨es, hes, hmem⟩ := hi.envelopes_ok
  obtain ⟨hs, h⟩ := ensure_bind_eq_ok.mp h
  obtain ⟨hl, h⟩ := ensure_bind_eq_ok.mp h
  obtain ⟨hdir, h⟩ := ensure_bind_eq_ok.mp h
  obtain ⟨es', hes', h⟩ := bind_eq_ok.mp h
  rw [hes] at hes'
  cases hes'
  have hany := ensure_eq_ok.mp h
  refine ⟨hs, hl, hdir.imp_right has_eq_false.mp, ?_⟩
  intro m e hm hlogin
  by_contra hne
  have hin : e ∈ es := (hmem e).mpr ⟨m, hm⟩
  rw [Bool.eq_false_iff, ne_eq, any_eq_true] at hany
  refine hany ⟨e, hin, ?_⟩
  rw [Bool.and_eq_true, decide_eq_true_eq, decide_eq_true_eq, hi.storage hm]
  exact ⟨hlogin, hne⟩

end

/-! ### Signing in -/

/-- A name and a password open the directory of a user, by the envelope if there is one. -/
def UserDir.SignsIn (u : String) (d : UserDir) (l p : String) (r : ResolvedAccountLogin) : Prop :=
  match d.accountLogin with
  | some e => e.binding.loginName = l ∧ e.credentials.password = p ∧
      e.credentials.content.binding = e.binding ∧
      authenticateDir u (some d) e.credentials.content.identityPassword = .ok r.user ∧
      r.user.userId = e.binding.localUserId ∧
      r = ⟨r.user, l, e.credentials.content.identityPassword,
        e.credentials.content.nodeStoragePassword⟩
  | none => l = u ∧ authenticateDir u (some d) (Texts.trim p) = .ok r.user ∧
      r = ⟨r.user, l, Texts.trim p, p⟩

def SignsInAs (us : Users) (u l p : String) (r : ResolvedAccountLogin) : Prop :=
  authenticateAccountLogin us l p = .ok r ∧ r.user.username = u

variable {user : User}

theorem authenticateDir_ok {od} (h : authenticateDir u od p = .ok user) :
    ∃ d f, od = some d ∧ d.userJson = some f ∧ f.content = user := by
  obtain ⟨_, -, h⟩ := bind_eq_ok.mp h
  obtain ⟨d, hd, h⟩ := bind_eq_ok.mp h
  obtain ⟨f, hf, h⟩ := bind_eq_ok.mp h
  obtain ⟨_, -, h⟩ := bind_eq_ok.mp h
  obtain ⟨_, -, h⟩ := bind_eq_ok.mp h
  obtain ⟨_, -, h⟩ := bind_eq_ok.mp h
  have hopen := need_eq_ok.mp h
  unfold Sealed.unseal at hopen
  split_ifs at hopen with hp
  exact ⟨d, f, need_eq_ok.mp hd, need_eq_ok.mp hf, Option.some.inj hopen⟩

theorem Inv.authenticate_username (hi : Inv us) (h : authenticateUser us u p = .ok user) :
    user.username = u ∧ ∃ d, us.get u = some d := by
  obtain ⟨d, f, hd, hf, rfl⟩ := authenticateDir_ok h
  exact ⟨(hi.dirs u d hd).user f hf, d, hd⟩

variable {r : ResolvedAccountLogin}

theorem openEnvelope_eq_ok :
    openEnvelope us e l p = .ok r ↔ e.credentials.password = p ∧
      e.credentials.content.binding = e.binding ∧
      authenticateUser us e.binding.storageUsername e.credentials.content.identityPassword =
        .ok r.user ∧ r.user.userId = e.binding.localUserId ∧
      r.user.username = e.binding.storageUsername ∧
      r = ⟨r.user, l, e.credentials.content.identityPassword,
        e.credentials.content.nodeStoragePassword⟩ := by
  unfold openEnvelope Sealed.unseal
  constructor
  · intro h
    obtain ⟨c, hc, h⟩ := bind_eq_ok.mp h
    obtain ⟨hb, h⟩ := ensure_bind_eq_ok.mp h
    obtain ⟨user, huser, h⟩ := bind_eq_ok.mp h
    obtain ⟨hid, h⟩ := ensure_bind_eq_ok.mp h
    cases h
    have hc := need_eq_ok.mp hc
    split_ifs at hc with hp
    cases hc
    exact ⟨hp.symm, hb, huser, hid.1, hid.2, rfl⟩
  · rintro ⟨hp, hb, huser, hid, hname, hr⟩
    rw [if_pos hp.symm]
    refine bind_eq_ok.mpr ⟨_, rfl, bind_eq_ok.mpr ⟨(), ensure_of _ hb, ?_⟩⟩
    refine bind_eq_ok.mpr
      ⟨r.user, huser, bind_eq_ok.mpr ⟨(), ensure_of _ (And.intro hid hname), ?_⟩⟩
    exact congrArg Except.ok hr.symm

/-- Signing in, under the invariant: by the envelope with that name, or under the name of a user
that has no envelope. -/
theorem Inv.signIn_eq_ok (hi : Inv us) :
    authenticateAccountLogin us l p = .ok r ↔
      (∃ n e, HasEnvelope us n e ∧ e.binding.loginName = l ∧ openEnvelope us e l p = .ok r) ∨
      ((∀ n e, HasEnvelope us n e → e.binding.loginName ≠ l ∧ n ≠ l) ∧
        validateUsername l = true ∧ authenticateUser us l (Texts.trim p) = .ok r.user ∧
        r = ⟨r.user, l, Texts.trim p, p⟩) := by
  obtain ⟨es, hes, hmem⟩ := hi.envelopes_ok
  have hwhole : authenticateAccountLogin us l p = .ok r ↔
      validateUsername l = true ∧ resolveLogin us es l p = .ok r := by
    unfold authenticateAccountLogin validateName
    rw [hes, bind_eq_ok]
    constructor
    · rintro ⟨_, hvalid, h⟩
      exact ⟨ensure_eq_ok.mp hvalid, h⟩
    · rintro ⟨hvalid, h⟩
      exact ⟨(), ensure_of _ hvalid, h⟩
  rw [hwhole, resolveLogin]
  cases hfind : es.find? fun e => e.binding.loginName = l with
  | some e =>
    have hlogin : e.binding.loginName = l := by simpa using find?_some hfind
    obtain ⟨n, hn⟩ := (hmem e).mp (mem_of_find?_eq_some hfind)
    have hvalid : validateUsername l = true :=
      hlogin ▸ (readable_iff.mp (hi.readable hn)).2.2.2.1
    constructor
    · exact fun h => .inl ⟨n, e, hn, hlogin, h.2⟩
    · rintro (⟨m, x, hx, hxl, h⟩ | ⟨hnone, -⟩)
      · obtain ⟨d, hd, hde⟩ := hn
        obtain rfl := hi.distinct m x n e hx ⟨d, hd, hde⟩ (hxl.trans hlogin.symm)
        obtain ⟨d', hd', hdx⟩ := hx
        rw [hd] at hd'
        cases hd'
        rw [hde] at hdx
        cases hdx
        exact ⟨hvalid, h⟩
      · exact absurd hlogin (hnone n e hn).1
  | none =>
    rw [find?_eq_none] at hfind
    have hno : ∀ n e, HasEnvelope us n e → e.binding.loginName ≠ l := fun n e hn hl =>
      hfind e ((hmem e).mpr ⟨n, hn⟩) (decide_eq_true hl)
    constructor
    · rintro ⟨hvalid, h⟩
      obtain ⟨hown, h⟩ := ensure_bind_eq_ok.mp h
      obtain ⟨user, huser, h⟩ := bind_eq_ok.mp h
      cases h
      refine .inr ⟨fun n e hn => ⟨hno n e hn, ?_⟩, hvalid, huser, rfl⟩
      rintro rfl
      rw [Bool.eq_false_iff, ne_eq, any_eq_true] at hown
      exact hown ⟨e, (hmem e).mpr ⟨n, hn⟩, decide_eq_true (hi.storage hn)⟩
    · rintro (⟨m, x, hx, hxl, -⟩ | ⟨hnone, hvalid, huser, hr⟩)
      · exact absurd hxl (hno m x hx)
      · have hown : (es.any fun e => e.binding.storageUsername = l) = false := by
          rw [Bool.eq_false_iff, ne_eq, any_eq_true]
          rintro ⟨e, he, hs⟩
          obtain ⟨n, hn⟩ := (hmem e).mp he
          exact (hnone n e hn).2 ((hi.storage hn).symm.trans (of_decide_eq_true hs))
        refine ⟨hvalid, bind_eq_ok.mpr ⟨(), ensure_of _ hown, ?_⟩⟩
        exact bind_eq_ok.mpr ⟨r.user, huser, congrArg Except.ok hr.symm⟩

/-- Whom a name signs in: the user whose alias it is, or else the user of that name. -/
theorem Inv.signIn_user (hi : Inv us) (h : authenticateAccountLogin us l p = .ok r) :
    (∃ e, HasEnvelope us r.user.username e ∧ e.binding.loginName = l) ∨
      ((∀ n e, HasEnvelope us n e → e.binding.loginName ≠ l) ∧ r.user.username = l) := by
  rcases hi.signIn_eq_ok.mp h with ⟨n, e, hn, hlogin, hopen⟩ | ⟨hnone, -, huser, -⟩
  · obtain ⟨-, -, -, -, hname, -⟩ := openEnvelope_eq_ok.mp hopen
    rw [hi.storage hn] at hname
    exact .inl ⟨e, hname ▸ hn, hlogin⟩
  · exact .inr ⟨fun n e hn => (hnone n e hn).1, (hi.authenticate_username huser).1⟩

/-- **Who signs in as a user depends on the directory of that user only.** -/
theorem Inv.signIn_iff (hi : Inv us) :
    SignsInAs us u l p r ↔ ∃ d, us.get u = some d ∧ d.SignsIn u l p r := by
  unfold SignsInAs
  rw [hi.signIn_eq_ok]
  constructor
  · rintro ⟨⟨n, e, hn, hlogin, hopen⟩ | ⟨hnone, hvalid, huser, hr⟩, hu⟩
    · obtain ⟨hp, hb, huser, hid, hname, hr⟩ := openEnvelope_eq_ok.mp hopen
      have hst := hi.storage hn
      have hnu : n = u := by rw [← hu, hname, hst]
      subst hnu
      obtain ⟨d, hd, he⟩ := hn
      refine ⟨d, hd, ?_⟩
      rw [hst] at huser
      unfold authenticateUser at huser
      rw [hd] at huser
      simp only [SignsIn, he]
      exact ⟨hlogin, hp, hb, huser, hid, hr⟩
    · obtain ⟨hname, d, hd⟩ := hi.authenticate_username huser
      have hlu : l = u := hname.symm.trans hu
      subst hlu
      refine ⟨d, hd, ?_⟩
      have hno : d.accountLogin = none := by
        cases he : d.accountLogin with
        | none => rfl
        | some e => exact absurd rfl (hnone l e ⟨d, hd, he⟩).2
      unfold authenticateUser at huser
      rw [hd] at huser
      simp only [SignsIn, hno]
      exact ⟨trivial, huser, hr⟩
  · rintro ⟨d, hd, h⟩
    unfold SignsIn at h
    cases he : d.accountLogin with
    | some e =>
      rw [he] at h
      obtain ⟨hlogin, hp, hb, huser, hid, hr⟩ := h
      have hn : HasEnvelope us u e := ⟨d, hd, he⟩
      have hst := hi.storage hn
      have huser' : authenticateUser us e.binding.storageUsername
          e.credentials.content.identityPassword = .ok r.user := by
        unfold authenticateUser
        rw [hst, hd]
        exact huser
      have hname := (hi.authenticate_username huser').1
      refine ⟨.inl ⟨u, e, hn, hlogin, openEnvelope_eq_ok.mpr ⟨hp, hb, huser', hid, hname, hr⟩⟩, ?_⟩
      rw [hname, hst]
    | none =>
      rw [he] at h
      obtain ⟨rfl, huser, hr⟩ := h
      have huser' : authenticateUser us l (Texts.trim p) = .ok r.user := by
        unfold authenticateUser
        rw [hd]
        exact huser
      refine ⟨.inr ⟨fun n e hn => ?_, hi.valid l d hd, huser', hr⟩,
        (hi.authenticate_username huser').1⟩
      have hnl : n ≠ l := by
        rintro rfl
        obtain ⟨d', hd', he'⟩ := hn
        rw [hd] at hd'
        cases hd'
        rw [he] at he'
        cases he'
      refine ⟨fun hl => ?_, hnl⟩
      have hfree := hi.alias_free n e hn fun hself => hnl (hself.symm.trans hl)
      rw [hl, hd] at hfree
      cases hfree

/-! ### A new directory, a new envelope -/

/-- A directory that may be added: nobody has the name, as a directory or as an alias. -/
theorem Inv.add (hi : Inv us) (hn : us.get n = none) (hv : validateUsername n = true) (hd : d.Ok n)
    (hself : ∀ e, d.accountLogin = some e → e.binding.loginName = n)
    (hfree : ∀ m e, HasEnvelope us m e → e.binding.loginName = n → m = n) : Inv (us.set n d) := by
  have hget : ∀ m d', (us.set n d).get m = some d' → (m = n ∧ d' = d) ∨ us.get m = some d' := by
    intro m d' h
    rw [get_set] at h
    split_ifs at h with hm
    · exact .inl ⟨hm, (Option.some.inj h).symm⟩
    · exact .inr h
  have henv : ∀ m e, HasEnvelope (us.set n d) m e →
      (m = n ∧ e.binding.loginName = n) ∨ (HasEnvelope us m e ∧ e.binding.loginName ≠ n) := by
    rintro m e ⟨d', hd', he⟩
    rcases hget m d' hd' with ⟨rfl, rfl⟩ | hold
    · exact .inl ⟨rfl, hself e he⟩
    · refine .inr ⟨⟨d', hold, he⟩, fun hl => ?_⟩
      rw [hfree m e ⟨d', hold, he⟩ hl, hn] at hold
      cases hold
  refine ⟨?_, ?_, ?_, ?_⟩
  · intro m d' h
    rcases hget m d' h with ⟨rfl, -⟩ | hold
    · exact hv
    · exact hi.valid m d' hold
  · intro m d' h
    rcases hget m d' h with ⟨rfl, rfl⟩ | hold
    · exact hd
    · exact hi.dirs m d' hold
  · intro m e m' e' h h' hl
    rcases henv m e h with ⟨rfl, he⟩ | ⟨hold, he⟩ <;> rcases henv m' e' h' with ⟨rfl, he'⟩
      | ⟨hold', he'⟩
    · rfl
    · exact absurd (hl.symm.trans he) he'
    · exact absurd (hl.trans he') he
    · exact hi.distinct m e m' e' hold hold' hl
  · intro m e h hne
    rcases henv m e h with ⟨rfl, he⟩ | ⟨hold, he⟩
    · exact absurd he hne
    · rw [get_set, if_neg he]
      exact hi.alias_free m e hold hne

/-- An envelope that may be installed: no other user has its name, as a directory or as an alias. -/
theorem Inv.replace (hi : Inv us) (hd : us.get s = some d) (hr : e.readable s = true)
    (hdir : s = e.binding.loginName ∨ us.get e.binding.loginName = none)
    (hfree : ∀ m x, HasEnvelope us m x → x.binding.loginName = e.binding.loginName → m = s) :
    Inv (us.modify s fun d => { d with accountLogin := some e }) := by
  have hget : ∀ m d', (us.modify s fun d => { d with accountLogin := some e }).get m = some d' →
      (m = s ∧ d' = { d with accountLogin := some e }) ∨ (m ≠ s ∧ us.get m = some d') := by
    intro m d' h
    rw [get_modify] at h
    split_ifs at h with hm
    · rw [hm, hd] at h
      exact .inl ⟨hm, (Option.some.inj h).symm⟩
    · exact .inr ⟨hm, h⟩
  have henv : ∀ m x, HasEnvelope (us.modify s fun d => { d with accountLogin := some e }) m x →
      (m = s ∧ x = e) ∨ (m ≠ s ∧ HasEnvelope us m x) := by
    rintro m x ⟨d', hd', hx⟩
    rcases hget m d' hd' with ⟨rfl, rfl⟩ | ⟨hm, hold⟩
    · exact .inl ⟨rfl, (Option.some.inj hx).symm⟩
    · exact .inr ⟨hm, d', hold, hx⟩
  have hnone : ∀ m, us.get m = none →
      (us.modify s fun d => { d with accountLogin := some e }).get m = none := by
    intro m hm
    rw [get_modify]
    split_ifs with h
    · rw [h, hd] at hm
      cases hm
    · exact hm
  refine ⟨?_, ?_, ?_, ?_⟩
  · intro m d' h
    rcases hget m d' h with ⟨rfl, -⟩ | ⟨-, hold⟩
    · exact hi.valid m d hd
    · exact hi.valid m d' hold
  · intro m d' h
    rcases hget m d' h with ⟨rfl, rfl⟩ | ⟨-, hold⟩
    · refine ⟨(hi.dirs m d hd).user, fun x hx => ?_⟩
      cases hx
      exact hr
    · exact hi.dirs m d' hold
  · intro m x m' x' h h' hl
    rcases henv m x h with ⟨rfl, rfl⟩ | ⟨-, hold⟩ <;>
      rcases henv m' x' h' with ⟨rfl, rfl⟩ | ⟨-, hold'⟩
    · rfl
    · exact (hfree m' x' hold' hl.symm).symm
    · exact hfree m x hold hl
    · exact hi.distinct m x m' x' hold hold' hl
  · intro m x h hne
    rcases henv m x h with ⟨rfl, rfl⟩ | ⟨-, hold⟩
    · rcases hdir with hself | hno
      · exact absurd hself.symm hne
      · exact hnone _ hno
    · exact hnone _ (hi.alias_free m x hold hne)

/-! ### The operations -/

variable {io : Bool}

theorem registerUser_ok {drawn} (hi : Inv us) (h : registerUser us n p drawn io = .ok us') :
    us.get n = none ∧ validateUsername n = true ∧
      (∀ m e, HasEnvelope us m e → e.binding.loginName = n → m = n) ∧
      us' = us.set n (newUserDir n p drawn) := by
  obtain ⟨hv, h⟩ := ensure_bind_eq_ok.mp h
  obtain ⟨_, hav, h⟩ := bind_eq_ok.mp h
  obtain ⟨-, -, -, hfree⟩ := hi.available hav
  cases hg : us.get n with
  | some d =>
    simp only [hg] at h
    split_ifs at h
  | none =>
    simp only [hg] at h
    obtain ⟨_, -, h⟩ := bind_eq_ok.mp h
    cases h
    exact ⟨rfl, hv, hfree, rfl⟩

theorem newUserDir_ok (n p drawn) : (newUserDir n p drawn).Ok n := by
  refine ⟨fun f hf => ?_, nofun⟩
  cases hf
  rfl

theorem Inv.registerUser {drawn} (hi : Inv us) (h : registerUser us n p drawn io = .ok us') :
    Inv us' := by
  obtain ⟨hn, hv, hfree, rfl⟩ := registerUser_ok hi h
  exact hi.add hn hv (newUserDir_ok n p drawn) nofun hfree

theorem installAccountLogin_ok {r guard} (hi : Inv us)
    (h : installAccountLogin us r guard io = .ok us') : ∃ user d,
      authenticateUser us r.storageUsername r.identityPassword = .ok user ∧
      us.get r.storageUsername = some d ∧
      (newEnvelope r user).readable r.storageUsername = true ∧
      (r.storageUsername = r.canonicalLoginName ∨ us.get r.canonicalLoginName = none) ∧
      (∀ m e, HasEnvelope us m e → e.binding.loginName = r.canonicalLoginName →
        m = r.storageUsername) ∧
      us' = us.modify r.storageUsername fun d =>
        { d with accountLogin := some (newEnvelope r user) } := by
  obtain ⟨hs, h⟩ := ensure_bind_eq_ok.mp h
  obtain ⟨hl, h⟩ := ensure_bind_eq_ok.mp h
  obtain ⟨_, -, h⟩ := bind_eq_ok.mp h
  obtain ⟨hacc, h⟩ := ensure_bind_eq_ok.mp h
  obtain ⟨user, huser, h⟩ := bind_eq_ok.mp h
  obtain ⟨hid, h⟩ := ensure_bind_eq_ok.mp h
  obtain ⟨_, hav, h⟩ := bind_eq_ok.mp h
  obtain ⟨_, -, h⟩ := bind_eq_ok.mp h
  obtain ⟨_, -, h⟩ := bind_eq_ok.mp h
  obtain ⟨hsize, h⟩ := ensure_bind_eq_ok.mp h
  obtain ⟨_, -, h⟩ := bind_eq_ok.mp h
  cases guard with
  | deny e => cases h
  | ignore => cases h
  | commit =>
    cases h
    obtain ⟨-, d, hd⟩ := hi.authenticate_username huser
    obtain ⟨-, -, hdir, hfree⟩ := hi.available hav
    refine ⟨user, d, huser, hd, ?_, hdir, hfree, rfl⟩
    refine readable_iff.mpr ⟨?_, rfl, rfl, hl, hid.2, hacc⟩
    -- names are short, so what fits when sealed fits in the file
    have hsn : r.storageUsername.utf8ByteSize ≤ 50 := by
      simp only [validateUsername, Bool.and_eq_true, decide_eq_true_eq] at hs
      exact hs.1.2
    have hln : r.canonicalLoginName.utf8ByteSize ≤ 50 := by
      simp only [validateUsername, Bool.and_eq_true, decide_eq_true_eq] at hl
      exact hl.1.2
    have hun : user.userId.utf8ByteSize ≤ 45 := Texts.isUuid_size _ hid.2
    have han : r.accountId.utf8ByteSize = 32 := by
      simp only [validAccountId, Bool.and_eq_true, decide_eq_true_eq] at hacc
      exact hacc.1
    simp only [newEnvelope, Credentials.size, Binding.size, textSize, maxEnvelopeBytes] at hsize
    simp only [Envelope.size, newEnvelope, Credentials.size, Binding.size, textSize,
      maxEnvelopeBytes]
    omega

theorem Inv.installAccountLogin {r guard} (hi : Inv us)
    (h : installAccountLogin us r guard io = .ok us') : Inv us' := by
  obtain ⟨user, d, -, hd, hr, hdir, hfree, rfl⟩ := installAccountLogin_ok hi h
  exact hi.replace hd hr hdir hfree

theorem staged_ok {staged : Staged} {stage} (h : staged.users = .ok stage)
    (hd : stage.get staged.name = some d) :
    d.Ok staged.name ∧ ∀ e, d.accountLogin = some e → e.binding.loginName = staged.name := by
  cases staged with
  | restored username password drawn =>
    have hinv := inv_empty.registerUser h
    obtain ⟨-, -, -, rfl⟩ := registerUser_ok inv_empty h
    refine ⟨hinv.dirs _ _ hd, fun e he => ?_⟩
    simp only [Staged.name] at hd
    rw [get_set, if_pos rfl] at hd
    cases hd
    cases he
  | enrolled loginName identityPassword nodePassword accountId password drawn =>
    obtain ⟨us₁, hreg, hinst⟩ := bind_eq_ok.mp h
    have hinv₁ := inv_empty.registerUser hreg
    have hinv := hinv₁.installAccountLogin hinst
    obtain ⟨user, d₁, -, hd₁, -, -, -, rfl⟩ := installAccountLogin_ok hinv₁ hinst
    refine ⟨hinv.dirs _ _ hd, fun e he => ?_⟩
    simp only [Staged.name] at hd ⊢
    rw [get_modify, if_pos rfl, hd₁] at hd
    cases hd
    cases he
    rfl

theorem UserDir.Ok.part (h : d.Ok n) (k) : (d.part k).Ok n := by
  constructor
  · intro f hf
    simp only [UserDir.part] at hf
    split_ifs at hf
    exact h.user f hf
  · intro e he
    simp only [UserDir.part] at he
    split_ifs at he
    exact h.envelope e he

/-- How a publication can end: nothing has changed, or the name was free and has the staged
directory or what a failed clean-up has left of it. -/
theorem publish_cases (hi : Inv us) (staged q) :
    ((publishNewAccountLogin us staged q).1 = us ∧
      (publishNewAccountLogin us staged q).2 ≠ .ok ()) ∨
      ∃ d, (publishNewAccountLogin us staged q).1 = us.set staged.name d ∧
        us.get staged.name = none ∧ validateUsername staged.name = true ∧ d.Ok staged.name ∧
        (∀ e, d.accountLogin = some e → e.binding.loginName = staged.name) ∧
        ∀ m e, HasEnvelope us m e → e.binding.loginName = staged.name → m = staged.name := by
  unfold publishNewAccountLogin
  cases hs : staged.users with
  | error e => exact .inl ⟨rfl, fun h => by cases h⟩
  | ok stage =>
    cases hc : (do
        validateName staged.name
        ensureAccountLoginAvailable us staged.name staged.name
        ensure (us.has staged.name = false) (IdentityError.userAlreadyExists staged.name)) with
    | error e => exact .inl ⟨rfl, fun h => by cases h⟩
    | ok x =>
      obtain ⟨hv, hc⟩ := ensure_bind_eq_ok.mp hc
      obtain ⟨_, hav, hc⟩ := bind_eq_ok.mp hc
      have hfreedir := has_eq_false.mp (ensure_eq_ok.mp hc)
      obtain ⟨-, -, -, hfree⟩ := hi.available hav
      cases hd : stage.get staged.name with
      | none => exact .inl ⟨by simp only [hd], by simp only [hd]; intro h; cases h⟩
      | some d =>
        obtain ⟨hok, hself⟩ := staged_ok hs hd
        cases q with
        | published =>
          exact .inr ⟨d, by simp only [hd], hfreedir, hv, hok, hself, hfree⟩
        | failed left =>
          cases left with
          | none => exact .inl ⟨by simp only [hd], by simp only [hd]; intro h; cases h⟩
          | some k =>
            refine .inr ⟨d.part k, by simp only [hd], hfreedir, hv, hok.part k,
              fun e he => ?_, hfree⟩
            simp only [part] at he
            split_ifs at he
            exact hself e he

/-! ### Runs -/

/-- **Every operation keeps the names unambiguous**, whether it succeeds or not. -/
theorem Inv.perform (hi : Inv us) (a) : Inv (perform us a).1 := by
  cases a with
  | register username password drawn io =>
    simp only [Identity.perform]
    cases h : Identity.registerUser us username password drawn io with
    | error e => exact hi
    | ok us' => exact hi.registerUser h
  | install r guard io =>
    simp only [Identity.perform]
    cases h : Identity.installAccountLogin us r guard io with
    | error e => exact hi
    | ok us' => exact hi.installAccountLogin h
  | publish staged q =>
    simp only [Identity.perform]
    rcases publish_cases hi staged q with ⟨h, -⟩ | ⟨d, h, hn, hv, hok, hself, hfree⟩
    · rw [h]
      exact hi
    · rw [h]
      exact hi.add hn hv hok hself hfree

/-- **An operation that fails, or is for another user,** leaves the directory of a user as it is. -/
theorem perform_get (hi : Inv us) (a) (hd : us.get u = some d)
    (h : (perform us a).2 ≠ .ok () ∨ a.target ≠ u) : (perform us a).1.get u = some d := by
  cases a with
  | register username password drawn io =>
    simp only [perform] at h ⊢
    cases hr : registerUser us username password drawn io with
    | error e => exact hd
    | ok us' =>
      obtain ⟨hn, -, -, rfl⟩ := registerUser_ok hi hr
      simp only [settle]
      rw [get_set, if_neg]
      · exact hd
      · rintro rfl
        rw [hn] at hd
        cases hd
  | install r guard io =>
    simp only [perform] at h ⊢
    cases hr : installAccountLogin us r guard io with
    | error e => exact hd
    | ok us' =>
      obtain ⟨user, d', -, -, -, -, -, rfl⟩ := installAccountLogin_ok hi hr
      simp only [hr, settle] at h ⊢
      rw [get_modify, if_neg]
      · exact hd
      · rintro rfl
        rcases h with h | h
        · exact h rfl
        · exact h rfl
  | publish staged q =>
    simp only [perform] at h ⊢
    rcases publish_cases hi staged q with ⟨hsame, -⟩ | ⟨d', hset, hn, -⟩
    · rw [hsame]
      exact hd
    · rw [hset, get_set, if_neg]
      · exact hd
      · rintro rfl
        rw [hn] at hd
        cases hd

theorem inv_run (as) : Inv (run as) := by
  unfold run
  induction as using reverseRecOn with
  | nil => exact inv_empty
  | append_singleton as a ih =>
    rw [foldl_append]
    exact ih.perform a

/-- After an installation, only the installed name and password open the directory, and give back
what was installed. -/
theorem signsIn_installed {r}
    (huser : authenticateDir r.storageUsername (some d) r.identityPassword = .ok user) (res) :
    ({ d with accountLogin := some (newEnvelope r user) } : UserDir).SignsIn r.storageUsername l p
      res ↔ l = r.canonicalLoginName ∧ p = r.rawSharedLoginPassword ∧
        res = ⟨user, l, r.identityPassword, r.nodeStoragePassword⟩ := by
  have hsame : authenticateDir r.storageUsername
      (some { d with accountLogin := some (newEnvelope r user) }) r.identityPassword =
        .ok user := huser
  simp only [SignsIn, newEnvelope]
  constructor
  · rintro ⟨hl, hp, -, hu, -, hres⟩
    have hu' : res.user = user := Except.ok.inj (hu.symm.trans hsame)
    rw [hu'] at hres
    exact ⟨hl.symm, hp.symm, hres⟩
  · rintro ⟨rfl, rfl, rfl⟩
    exact ⟨rfl, rfl, trivial, hsame, rfl, rfl⟩

/-- **Sign-in names stay unambiguous.** After any operations of any managers and processes: all
envelopes can be read, an alias names no directory of another user, and a name signs in at most one
user. A further operation that fails, or is for another user, changes nothing of how a user signs
in. After an installation exactly the installed name and password sign the user in, and give back
the identity and the storage password. -/
theorem sign_in_unambiguous (as : List Action) : (∃ es, accountLoginEnvelopes (run as) = .ok es) ∧
    (∀ n e, HasEnvelope (run as) n e → e.binding.loginName ≠ n →
      (run as).get e.binding.loginName = none) ∧
    (∀ l p p' r r', authenticateAccountLogin (run as) l p = .ok r →
      authenticateAccountLogin (run as) l p' = .ok r' → r.user.username = r'.user.username) ∧
    (∀ a u d, (run as).get u = some d → ((perform (run as) a).2 ≠ .ok () ∨ a.target ≠ u) →
      ∀ l p r, SignsInAs (run as) u l p r ↔ SignsInAs (perform (run as) a).1 u l p r) ∧
    ∀ req guard io, (perform (run as) (.install req guard io)).2 = .ok () →
      ∃ user, authenticateUser (run as) req.storageUsername req.identityPassword = .ok user ∧
        ∀ l p r, SignsInAs (perform (run as) (.install req guard io)).1 req.storageUsername l p r ↔
          l = req.canonicalLoginName ∧ p = req.rawSharedLoginPassword ∧
            r = ⟨user, l, req.identityPassword, req.nodeStoragePassword⟩ := by
  have hi := inv_run as
  refine ⟨?_, hi.alias_free, ?_, ?_, ?_⟩
  · obtain ⟨es, hes, -⟩ := hi.envelopes_ok
    exact ⟨es, hes⟩
  · intro l p p' r r' h h'
    rcases hi.signIn_user h with ⟨e, he, hl⟩ | ⟨hno, hr⟩ <;>
      rcases hi.signIn_user h' with ⟨e', he', hl'⟩ | ⟨hno', hr'⟩
    · exact hi.distinct _ e _ e' he he' (hl.trans hl'.symm)
    · exact absurd hl (hno' _ e he)
    · exact absurd hl' (hno _ e' he')
    · rw [hr, hr']
  · intro a u d hd h l p r
    rw [hi.signIn_iff, (hi.perform a).signIn_iff, hd, perform_get hi a hd h]
  · intro req guard io h
    simp only [perform] at h ⊢
    cases hr : installAccountLogin (run as) req guard io with
    | error e =>
      rw [hr] at h
      cases h
    | ok us' =>
      have hi' := hi.installAccountLogin hr
      obtain ⟨user, d, huser, hd, -, -, -, rfl⟩ := installAccountLogin_ok hi hr
      refine ⟨user, huser, fun l p r => ?_⟩
      unfold authenticateUser at huser
      rw [hd] at huser
      rw [settle, hi'.signIn_iff, Table.get_modify, if_pos rfl, hd, ← signsIn_installed huser]
      constructor
      · rintro ⟨d', hd', hs⟩
        cases hd'
        exact hs
      · exact fun hs => ⟨_, rfl, hs⟩

end MeshTalk.Identity
