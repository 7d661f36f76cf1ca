import Mathlib.Data.List.Pairwise
import MeshTalk.Identity.Login

/-! # Changing the password of a user

`change_password` (`identity/manager.rs`) seals the credentials, the user, the private key and the
nickname again, one file after another. Each file is replaced by one rename, so a change that is
interrupted has done some number of its writes. -/

namespace MeshTalk.Identity

open MeshTalk.Lib

/-- All the files of a user: also those that a sign-in can do without, and those that the backup
keeps under the identity password, as their bytes. -/
structure UserFiles extends UserDir where
  userId : Option (Sealed String)
  chats : Option (Sealed (List (String × List String)))
  displayName : Option (Sealed String)
  backupSetup : Option (Sealed (List UInt8))
  backupStatus : Option (Sealed (List UInt8))
deriving DecidableEq

def newUserFiles (username password : String) (d : Drawn) : UserFiles :=
  { newUserDir username password d with
    userId := some ⟨password, d.userId⟩, chats := some ⟨password, []⟩, displayName := none
    backupSetup := none, backupStatus := none }

def readEncryptedFile {α : Type} (file : Option (Sealed α)) (password : String) :
    Except IdentityError α := do
  let sealedFile ← need file (.storageError "File not found")
  need (sealedFile.unseal password) (.storageError "Decryption error")

/-! ### The writes of a change -/

def changeCredentials (old new : String) (f : UserFiles) : Except IdentityError UserFiles := do
  let credentials ← readEncryptedFile f.credentialsJson old
  pure { f with credentialsJson := some ⟨new, { credentials with passwordHash := new }⟩ }

def changeUser (old new : String) (f : UserFiles) : Except IdentityError UserFiles := do
  let user ← readEncryptedFile f.userJson old
  pure { f with userJson := some ⟨new, user⟩ }

def changePrivateKey (old new : String) (f : UserFiles) : Except IdentityError UserFiles := do
  let privateKey ← readEncryptedFile f.privateKey old
  pure { f with privateKey := some ⟨new, privateKey⟩ }

def changeDisplayName (old new : String) (f : UserFiles) : Except IdentityError UserFiles := do
  let displayName ← readEncryptedFile f.displayName old
  pure { f with displayName := some ⟨new, displayName⟩ }

def changes (old new : String) (f : UserFiles) :
    List (UserFiles → Except IdentityError UserFiles) :=
  [changeCredentials old new, changeUser old new, changePrivateKey old new] ++
    if f.displayName.isSome then [changeDisplayName old new] else []

/-- Do the writes in turn, of which `writes` take effect. -/
def runChanges : ℕ → List (UserFiles → Except IdentityError UserFiles) → UserFiles →
    UserFiles × Except IdentityError Unit
  | _, [], f => (f, .ok ())
  | 0, _ :: _, f => (f, .error ioError)
  | writes + 1, change :: rest, f =>
    match change f with
    | .error e => (f, .error e)
    | .ok f' => runChanges writes rest f'

section
variable [Texts]

def signIn (username : String) (f : UserFiles) (password : String) : Except IdentityError User :=
  authenticateDir username (some f.toUserDir) password

/-- **Change the password**; what the files are afterwards, and what the caller is told. A crash
tells nothing, but it leaves the files as a failing write does. -/
def changePassword (username old new : String) (writes : ℕ) (f : UserFiles) :
    UserFiles × Except IdentityError Unit :=
  match signIn username f old with
  | .error e => (f, .error e)
  | .ok _ => runChanges writes (changes old new f) f

/-! ### What is kept -/

def Opens {α : Type} (before after : Option (Sealed α)) (old p : String) : Prop :=
  ∀ a, readEncryptedFile before old = .ok a → readEncryptedFile after p = .ok a

/-- A password opens all that another one opened before. The credentials name it now. -/
structure OpensAll (f g : UserFiles) (old p : String) : Prop where
  user : Opens f.userJson g.userJson old p
  credentials : ∀ c, readEncryptedFile f.credentialsJson old = .ok c →
    readEncryptedFile g.credentialsJson p = .ok { c with passwordHash := p }
  privateKey : Opens f.privateKey g.privateKey old p
  userId : Opens f.userId g.userId old p
  chats : Opens f.chats g.chats old p
  displayName : Opens f.displayName g.displayName old p
  backupSetup : Opens f.backupSetup g.backupSetup old p
  backupStatus : Opens f.backupStatus g.backupStatus old p

variable {f g : UserFiles} {username old new p : String} {u : User}

omit [Texts] in
theorem readEncryptedFile_eq_ok {α : Type} {file : Option (Sealed α)} {a} :
    readEncryptedFile file p = .ok a ↔ file = some ⟨p, a⟩ := by
  constructor
  · intro h
    obtain ⟨s, hs, h⟩ := bind_eq_ok.mp h
    have hs := need_eq_ok.mp hs
    have h := need_eq_ok.mp h
    unfold Sealed.unseal at h
    split_ifs at h with hp
    rw [hs, hp, ← Option.some.inj h]
  · rintro rfl
    exact bind_eq_ok.mpr ⟨_, rfl, need_eq_ok.mpr (if_pos rfl)⟩

theorem signIn_eq_ok : signIn username f p = .ok u ↔
    validateUsername username = true ∧ f.userJson = some ⟨p, u⟩ ∧
      ∃ c, f.credentialsJson = some ⟨p, c⟩ ∧ c.passwordHash = p := by
  constructor
  · intro h
    obtain ⟨hname, h⟩ := ensure_bind_eq_ok.mp h
    obtain ⟨_, hd, h⟩ := bind_eq_ok.mp h
    obtain rfl := Option.some.inj (need_eq_ok.mp hd)
    obtain ⟨userJson, huser, h⟩ := bind_eq_ok.mp h
    obtain ⟨credentialsJson, hcred, h⟩ := bind_eq_ok.mp h
    obtain ⟨c, hc, h⟩ := bind_eq_ok.mp h
    obtain ⟨hp, h⟩ := ensure_bind_eq_ok.mp h
    have huser := need_eq_ok.mp huser
    have hcred := need_eq_ok.mp hcred
    have hu : readEncryptedFile f.userJson p = .ok u := bind_eq_ok.mpr ⟨_, need_eq_ok.mpr huser, h⟩
    have hc : readEncryptedFile f.credentialsJson p = .ok c :=
      bind_eq_ok.mpr ⟨_, need_eq_ok.mpr hcred, need_eq_ok.mpr (need_eq_ok.mp hc)⟩
    exact ⟨hname, readEncryptedFile_eq_ok.mp hu, c, readEncryptedFile_eq_ok.mp hc, hp.symm⟩
  · rintro ⟨hname, hu, c, hc, hp⟩
    refine bind_eq_ok.mpr ⟨(), ensure_eq_ok.mpr hname, bind_eq_ok.mpr ⟨_, rfl, bind_eq_ok.mpr ⟨_,
      need_eq_ok.mpr hu,
        bind_eq_ok.mpr ⟨_, need_eq_ok.mpr hc, bind_eq_ok.mpr ⟨c, need_eq_ok.mpr (if_pos rfl),
      bind_eq_ok.mpr ⟨(), ensure_eq_ok.mpr hp.symm, need_eq_ok.mpr (if_pos rfl)⟩⟩⟩⟩⟩⟩

/-- The files that a change seals again open under a password. -/
structure Readable (f : UserFiles) (password : String) : Prop where
  privateKey : ∃ k, f.privateKey = some ⟨password, k⟩
  displayName : f.displayName = none ∨ ∃ n, f.displayName = some ⟨password, n⟩

/-- The password that a file is under, which is the `i`-th to be sealed again. -/
def passwordAfter (old new : String) (writes i : ℕ) : String := if i ≤ writes then new else old

/-- The files after a number of writes. -/
def changed (old new : String) (writes : ℕ) (f : UserFiles) (c : UserCredentials) (u : User)
    (k : List UInt8) :
    UserFiles :=
  { f with
    credentialsJson := some ⟨passwordAfter old new writes 1,
      { c with passwordHash := passwordAfter old new writes 1 }⟩
    userJson := some ⟨passwordAfter old new writes 2, u⟩
    privateKey := some ⟨passwordAfter old new writes 3, k⟩
    displayName := f.displayName.map fun d => ⟨passwordAfter old new writes 4, d.content⟩ }

/-- **What a change does**, of which any number of writes takes effect. -/
theorem changePassword_eq (hin : signIn username f old = .ok u) (hf : Readable f old)
    (new) (writes) :
    ∃ c k, f.credentialsJson = some ⟨old, c⟩ ∧ c.passwordHash = old ∧ f.privateKey = some ⟨old, k⟩ ∧
      changePassword username old new writes f = (changed old new writes f c u k,
        if (changes old new f).length ≤ writes then .ok () else .error ioError) := by
  obtain ⟨-, hu, c, hc, hhash⟩ := signIn_eq_ok.mp hin
  obtain ⟨k, hk⟩ := hf.privateKey
  refine ⟨c, k, hc, hhash, hk, ?_⟩
  have hread {α : Type} (a : α) : readEncryptedFile (some ⟨old, a⟩) old = .ok a :=
    readEncryptedFile_eq_ok.mpr rfl
  have hrun : changePassword username old new writes f =
    runChanges writes (changes old new f) f := by
    simp only [changePassword, hin]
  rw [hrun]
  clear hrun hin
  obtain ⟨⟨_, _, _, login⟩, userId, chats, displayName, backupSetup, backupStatus⟩ := f
  have hsame : ({ c with passwordHash := old } : UserCredentials) = c := by rw [← hhash]
  dsimp only at hu hc hk
  subst hu hc hk
  -- as many cases as there are writes
  rcases hf.displayName with rfl | ⟨d, rfl⟩ <;> rcases writes with _ | _ | _ | _ | n <;>
    simp [changes, runChanges, changeCredentials, changeUser, changePrivateKey, changeDisplayName,
      hread, changed, passwordAfter, hsame]

omit [Texts] in
theorem readEncryptedFile_some {α : Type} {q : String} {a b : α} :
    readEncryptedFile (some ⟨q, a⟩) p = .ok b ↔ q = p ∧ a = b := by
  rw [readEncryptedFile_eq_ok, Option.some.injEq, Sealed.mk.injEq]

/-! ### The account login -/

/-- All the envelopes are found, and no two have one login name. -/
theorem readEnvelopes_spec {us : Users} : ∀ {names : List String} {found es : List Envelope},
    readEnvelopes us found names = .ok es → found.Pairwise
      (fun x y => x.binding.loginName ≠ y.binding.loginName) →
    es.Pairwise (fun x y => x.binding.loginName ≠ y.binding.loginName) ∧ found ⊆ es ∧
      ∀ n ∈ names, validateUsername n = true → ∀ d e, us.get n = some d → d.accountLogin = some e →
        e ∈ es ∧ e.binding.storageUsername = n
  | [], found, es, h, hp => by
    cases h
    exact ⟨hp, List.Subset.refl _, fun n hn => by cases hn⟩
  | name :: rest, found, es, h, hp => by
    unfold readEnvelopes at h
    split_ifs at h with hname
    swap
    · obtain ⟨hes, hsub, hall⟩ := readEnvelopes_spec h hp
      refine ⟨hes, hsub, fun n hn hv => ?_⟩
      rcases List.mem_cons.mp hn with rfl | hn
      · exact absurd hv hname
      · exact hall n hn hv
    split at h
    · cases h
    · next hread =>
      obtain ⟨hes, hsub, hall⟩ := readEnvelopes_spec h hp
      refine ⟨hes, hsub, fun n hn hv d e hd he => ?_⟩
      rcases List.mem_cons.mp hn with rfl | hn
      · simp only [readAccountLogin, hd, Option.bind_some, he] at hread
        split_ifs at hread
        cases hread
      · exact hall n hn hv d e hd he
    · next e hread =>
      split_ifs at h with hdup hdir
      have hp' : (found ++ [e]).Pairwise fun x y => x.binding.loginName ≠ y.binding.loginName := by
        refine List.pairwise_append.mpr ⟨hp, List.pairwise_singleton _ _,
          fun x hx y hy heq => hdup ?_⟩
        rw [List.mem_singleton.mp hy] at heq
        exact List.any_eq_true.mpr ⟨x, hx, decide_eq_true heq⟩
      obtain ⟨hes, hsub, hall⟩ := readEnvelopes_spec h hp'
      refine ⟨hes, fun x hx => hsub (List.mem_append_left _ hx), fun n hn hv d e' hd he => ?_⟩
      rcases List.mem_cons.mp hn with rfl | hn
      · simp only [readAccountLogin, hd, Option.bind_some, he] at hread
        split_ifs at hread with hreadable
        cases hread
        simp only [Envelope.readable, Bool.and_eq_true, decide_eq_true_eq] at hreadable
        exact ⟨hsub (by simp), hreadable.1.1.1.2⟩
      · exact hall n hn hv d e' hd he

/-- A person who signs in by the login name of a user's envelope does so with the identity password
in it. -/
theorem signIn_of_login {us : Users} {e password login} (hname : validateUsername username = true)
    (hus : us.get username = some f.toUserDir) (he : f.accountLogin = some e)
    (h : authenticateAccountLogin us e.binding.loginName password = .ok login) :
    ∃ user, signIn username f e.credentials.content.identityPassword = .ok user := by
  obtain ⟨-, -, h⟩ := bind_eq_ok.mp h
  obtain ⟨es, hes, h⟩ := bind_eq_ok.mp h
  have hmem : username ∈ us.rows.map Prod.fst := List.mem_map.mpr ⟨_, Table.get_eq_some.mp hus, rfl⟩
  obtain ⟨hp, -, hall⟩ := readEnvelopes_spec hes List.Pairwise.nil
  obtain ⟨hin, hstorage⟩ := hall username hmem hname _ e hus he
  -- the envelope that is found is the user's
  have hfind : es.find? (fun x => x.binding.loginName = e.binding.loginName) = some e := by
    obtain ⟨x, hx⟩ := Option.isSome_iff_exists.mp
      (List.find?_isSome (p := fun x => x.binding.loginName = e.binding.loginName).mpr
        ⟨e, hin, by simp⟩)
    have hlogin : x.binding.loginName = e.binding.loginName := by simpa using List.find?_some hx
    by_contra hne
    have hsymm : Std.Symm fun x y : Envelope => x.binding.loginName ≠ y.binding.loginName :=
      ⟨fun _ _ h => h.symm⟩
    exact hp.forall (List.mem_of_find?_eq_some hx) hin (fun heq => hne (heq ▸ hx)) hlogin
  simp only [resolveLogin, hfind] at h
  obtain ⟨credentials, hc, h⟩ := bind_eq_ok.mp h
  obtain ⟨-, h⟩ := ensure_bind_eq_ok.mp h
  obtain ⟨user, huser, -⟩ := bind_eq_ok.mp h
  have hc := need_eq_ok.mp hc
  unfold Sealed.unseal at hc
  split_ifs at hc
  obtain rfl := Option.some.inj hc
  rw [authenticateUser, hstorage, hus] at huser
  exact ⟨user, huser⟩

/-! ### What a change keeps -/

/-- A change keeps a user: one of the two passwords signs in and opens all that the old one opened;
after a change that is done the new one does; and an installed account login signs in as it did. -/
structure Keeps (username old new : String) (us : Users) (f : UserFiles) (u : User)
    (r : UserFiles × Except IdentityError Unit) : Prop where
  one : ∃ p, (p = old ∨ p = new) ∧ signIn username r.1 p = .ok u ∧ OpensAll f r.1 old p
  done : r.2 = .ok () → signIn username r.1 new = .ok u ∧ OpensAll f r.1 old new
  login : ∀ e, f.accountLogin = some e → ∀ password login,
    authenticateAccountLogin us e.binding.loginName password = .ok login →
    authenticateAccountLogin (us.modify username fun _ => r.1.toUserDir) e.binding.loginName
      password = .ok login

/-- The old password opens none of the files that a change leaves as they are. -/
structure Unused (f : UserFiles) (old : String) : Prop where
  userId : ∀ a, f.userId ≠ some ⟨old, a⟩
  chats : ∀ a, f.chats ≠ some ⟨old, a⟩
  backupSetup : ∀ a, f.backupSetup ≠ some ⟨old, a⟩
  backupStatus : ∀ a, f.backupStatus ≠ some ⟨old, a⟩

/-- When a change keeps a user: it does no write, or is to the same password; or it does all its
writes, the old password opens none of the files that are left, and no one signed in by an account
login of the user. -/
def Covered (us : Users) (f : UserFiles) (old new : String) (writes : ℕ) : Prop :=
  writes = 0 ∨ old = new ∨ ((changes old new f).length ≤ writes ∧ Unused f old ∧
    ∀ e, f.accountLogin = some e → ∀ password login,
      authenticateAccountLogin us e.binding.loginName password ≠ .ok login)

omit [Texts] in
theorem modify_same {us : Users} {d} (h : us.get username = some d) :
    us.modify username (fun _ => d) = us := by
  refine Table.ext ((List.map_congr_left fun r hr => ?_).trans (List.map_id _))
  split_ifs with hr'
  · have hget := Table.get_eq_some.mpr hr
    rw [hr', h] at hget
    exact Prod.ext rfl (Option.some.inj hget)
  · rfl

omit [Texts] in
theorem opens_of_unused {α : Type} {file : Option (Sealed α)} (h : ∀ a, file ≠ some ⟨old, a⟩) (p) :
    Opens file file old p := fun a ha => absurd (readEncryptedFile_eq_ok.mp ha) (h a)

omit [Texts] in
theorem unused_of_opens {α : Type} {file : Option (Sealed α)} (hne : old ≠ new)
    (h : Opens file file old new) :
    ∀ a, file ≠ some ⟨old, a⟩ := by
  rintro a rfl
  exact hne (readEncryptedFile_some.mp (h a (readEncryptedFile_some.mpr ⟨rfl, rfl⟩))).1

omit [Texts] in
/-- What is sealed again opens under a password if that is the one it is under now. -/
theorem opens_sealed {α : Type} {file : Option (Sealed α)} {q : String} {a}
    (h : file = some ⟨old, a⟩) :
    Opens file (some ⟨q, a⟩) old p ↔ q = p := by
  subst h
  constructor
  · exact fun h => (readEncryptedFile_some.mp (h a (readEncryptedFile_some.mpr ⟨rfl, rfl⟩))).1
  · rintro rfl b hb
    exact readEncryptedFile_some.mpr ⟨rfl, (readEncryptedFile_some.mp hb).2⟩

section

variable {writes : ℕ} {c : UserCredentials} {k : List UInt8}

omit [Texts] in
theorem passwordAfter_eq_new (hne : old ≠ new) {i} :
    passwordAfter old new writes i = new ↔ i ≤ writes := by
  unfold passwordAfter
  split_ifs with h <;> simp [h, hne]

theorem signIn_changed (hname : validateUsername username = true) :
    signIn username (changed old new writes f c u k) p = .ok u ↔
      passwordAfter old new writes 1 = p ∧ passwordAfter old new writes 2 = p := by
  rw [signIn_eq_ok]
  simp only [changed, Option.some.injEq, Sealed.mk.injEq, and_true]
  constructor
  · rintro ⟨-, h2, c', ⟨h1, -⟩, -⟩
    exact ⟨h1, h2⟩
  · rintro ⟨h1, h2⟩
    exact ⟨hname, h2, _, ⟨h1, rfl⟩, h1⟩

omit [Texts] in
theorem opens_credentials (hc : f.credentialsJson = some ⟨old, c⟩)
    (h1 : passwordAfter old new writes 1 = p) {c'}
    (hc' : readEncryptedFile f.credentialsJson old = .ok c') :
    readEncryptedFile (changed old new writes f c u k).credentialsJson p =
      .ok { c' with passwordHash := p } := by
  rw [hc] at hc'
  obtain ⟨-, rfl⟩ := readEncryptedFile_some.mp hc'
  exact readEncryptedFile_some.mpr ⟨h1, by rw [h1]⟩

omit [Texts] in
theorem changed_same (hsame : writes = 0 ∨ old = new) (hf : Readable f old)
    (hu : f.userJson = some ⟨old, u⟩) (hc : f.credentialsJson = some ⟨old, c⟩)
    (hhash : c.passwordHash = old) (hk : f.privateKey = some ⟨old, k⟩) :
    changed old new writes f c u k = f := by
  have hpw (i : ℕ) : passwordAfter old new writes (i + 1) = old := by
    unfold passwordAfter
    rcases hsame with rfl | rfl
    · exact if_neg (by omega)
    · exact ite_self _
  have hd : f.displayName.map (fun d => Sealed.mk old d.content) = f.displayName := by
    rcases hf.displayName with hd | ⟨d, hd⟩ <;> rw [hd] <;> rfl
  have hc' : ({ c with passwordHash := old } : UserCredentials) = c := by rw [← hhash]
  simp only [changed, hpw 0, hpw 1, hpw 2, hpw 3, hd, hc', ← hu, ← hk, ← hc]

omit [Texts] in
theorem length_changes_le (hf : Readable f old) (hne : old ≠ new) :
    (changes old new f).length ≤ writes ↔ 3 ≤ writes ∧
      Opens f.displayName (changed old new writes f c u k).displayName old new := by
  rcases hf.displayName with hd | ⟨d, hd⟩
  · simp [changes, changed, hd, Opens, readEncryptedFile_eq_ok]
  · have hopens : (changed old new writes f c u k).displayName =
        some ⟨passwordAfter old new writes 4, d⟩ := by
      rw [changed, hd]
      rfl
    rw [hopens, opens_sealed hd, passwordAfter_eq_new hne]
    simp only [changes, hd]
    simp
    omega

end

end

/-! ### What is lost -/

@[reducible] def plainTexts : Texts where
  isAlphanumeric := Char.isAlphanum
  trim := id
  isUuid s := s = "u"
  isUuid_size s h := by
    obtain rfl : s = "u" := of_decide_eq_true h
    decide

def alice : UserFiles := newUserFiles "alice" "old" ⟨"u", "k", [1], 0⟩

def aliceOnline : UserFiles :=
  { alice with
    accountLogin := some (@newEnvelope ⟨"alice", "old", "node", "0123456789abcdef0123456789abcdef",
      "ally", "shared", none⟩ ⟨"alice", "u", "k", 0⟩) }

/-- Registered under another password, changed since. -/
def aliceMoved : UserFiles :=
  { newUserFiles "alice" "old" ⟨"u", "k", [1], 0⟩ with
    userId := some ⟨"first", "u"⟩, chats := some ⟨"first", []⟩, displayName := some ⟨"old", "Al"⟩ }

end MeshTalk.Identity
