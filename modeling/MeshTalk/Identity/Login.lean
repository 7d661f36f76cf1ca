import MeshTalk.Lib.Table
import MeshTalk.Lib.Outcome

/-! # Local users and their sign-in names

The users of one installation, as `identity/manager.rs` and `identity/account_login.rs` keep them: a
directory per user, under the user's name, with the files of the user sealed under the identity
password, and at most one envelope, which says under which other name and password the user signs
in. Directory names and the names in envelopes are one namespace. Every operation holds the lock of
the namespace from its first read on, so operations are steps.

Sealing is ideal: a file opens under the password it was sealed with and under no other. -/

namespace MeshTalk.Identity

open MeshTalk.Lib

inductive IdentityError where
  | invalidUsername
  | invalidPassword
  | invalidUserId
  | userNotFound (username : String)
  | userAlreadyExists (username : String)
  | storageError (message : String)
deriving DecidableEq

/-- What is asked of texts: the letters and digits of all scripts, the trimming of white space, and
which texts are UUIDs. The longest form of a UUID, as a URN, has 45 bytes. -/
class Texts where
  isAlphanumeric : Char → Bool
  trim : String → String
  isUuid : String → Bool
  isUuid_size : ∀ s, isUuid s = true → s.utf8ByteSize ≤ 45

/-- A file under a password. -/
structure Sealed (α : Type) where
  password : String
  content : α
deriving DecidableEq

def Sealed.unseal {α : Type} (f : Sealed α) (password : String) : Option α :=
  if password = f.password then some f.content else none

structure User where
  username : String
  userId : String
  publicKey : String
  createdAt : ℕ
deriving DecidableEq

structure UserCredentials where
  username : String
  passwordHash : String
  privateKey : List UInt8
deriving DecidableEq

structure Binding where
  version : ℕ
  storageUsername : String
  localUserId : String
  accountId : String
  loginName : String
deriving DecidableEq

structure Credentials where
  binding : Binding
  identityPassword : String
  nodeStoragePassword : String
deriving DecidableEq

/-- The file that lets a user sign in under a name and a password of the account. -/
structure Envelope where
  binding : Binding
  credentials : Sealed Credentials
deriving DecidableEq

/-- The directory of a user. Any of its files may be missing. -/
structure UserDir where
  userJson : Option (Sealed User)
  credentialsJson : Option (Sealed UserCredentials)
  privateKey : Option (Sealed (List UInt8))
  accountLogin : Option Envelope
deriving DecidableEq

abbrev Users := Table String UserDir

/-! ### Sizes -/

def textSize (s : String) : ℕ := 8 + s.utf8ByteSize

def Binding.size (b : Binding) : ℕ :=
  4 + textSize b.storageUsername + textSize b.localUserId + textSize b.accountId +
    textSize b.loginName

def Credentials.size (c : Credentials) : ℕ :=
  c.binding.size + textSize c.identityPassword + textSize c.nodeStoragePassword

/-- The size of the file: the binding, the salt, the nonce, and the sealed bytes with their tag. -/
def Envelope.size (e : Envelope) : ℕ :=
  e.binding.size + 16 + 12 + (8 + (e.credentials.content.size + 16))

def maxEnvelopeBytes : ℕ := 64 * 1024

def envelopeVersion : ℕ := 1

section
variable [Texts]

/-! ### Names -/

def validateUsername (s : String) : Bool :=
  s ≠ "" && decide (s.utf8ByteSize ≤ 50) &&
    s.toList.all fun c => Texts.isAlphanumeric c || c = '_' || c = '-'

def validateUserId (s : String) : Bool := Texts.isUuid s

def isHexDigit (c : Char) : Bool :=
  ('0' ≤ c && c ≤ '9') || ('a' ≤ c && c ≤ 'f') || ('A' ≤ c && c ≤ 'F')

def validAccountId (s : String) : Bool := decide (s.utf8ByteSize = 32) && s.toList.all isHexDigit

def validateName (name : String) : Except IdentityError Unit :=
  ensure (validateUsername name = true) .invalidUsername

def invalidEnvelope : IdentityError :=
  .storageError "Invalid account login envelope; preserve it for recovery"

def ioError : IdentityError := .storageError "Account login storage operation failed"

/-! ### Reading -/

def authenticateDir (username : String) (dir : Option UserDir) (password : String) :
    Except IdentityError User := do
  ensure (validateUsername username = true) .invalidUsername
  let d ← need dir (.userNotFound username)
  let userJson ← need d.userJson (.userNotFound username)
  let credentialsJson ← need d.credentialsJson (.storageError "File not found")
  let credentials ← need (credentialsJson.unseal password) .invalidPassword
  ensure (password = credentials.passwordHash) .invalidPassword
  need (userJson.unseal password) (.storageError "Decryption error")

def authenticateUser (us : Users) (username password : String) : Except IdentityError User :=
  authenticateDir username (us.get username) password

def Envelope.readable (username : String) (e : Envelope) : Bool :=
  decide (e.size ≤ maxEnvelopeBytes) && e.binding.version = envelopeVersion &&
    e.binding.storageUsername = username && validateUsername e.binding.loginName &&
    validateUserId e.binding.localUserId && validAccountId e.binding.accountId

def readAccountLogin (us : Users) (username : String) : Except IdentityError (Option Envelope) :=
  match (us.get username).bind UserDir.accountLogin with
  | none => .ok none
  | some e => if e.readable username then .ok (some e) else .error invalidEnvelope

def readEnvelopes (us : Users) (found : List Envelope) :
    List String → Except IdentityError (List Envelope)
  | [] => .ok found
  | name :: rest =>
    if validateUsername name then
      match readAccountLogin us name with
      | .error e => .error e
      | .ok none => readEnvelopes us found rest
      | .ok (some e) =>
        if found.any fun x => x.binding.loginName = e.binding.loginName then .error invalidEnvelope
        else if e.binding.loginName ≠ name ∧ us.has e.binding.loginName = true then
          .error invalidEnvelope
        else readEnvelopes us (found ++ [e]) rest
    else readEnvelopes us found rest

def accountLoginEnvelopes (us : Users) : Except IdentityError (List Envelope) :=
  readEnvelopes us [] (us.rows.map Prod.fst)

/-- A user may sign in under a name: it is neither the directory nor the alias of another one. -/
def ensureAccountLoginAvailable (us : Users) (storageUsername loginName : String) :
    Except IdentityError Unit := do
  validateName storageUsername
  validateName loginName
  ensure (storageUsername = loginName ∨ us.has loginName = false) (.userAlreadyExists loginName)
  let envelopes ← accountLoginEnvelopes us
  ensure ((envelopes.any fun e => e.binding.loginName = loginName &&
    e.binding.storageUsername ≠ storageUsername) = false) (.userAlreadyExists loginName)

structure ResolvedAccountLogin where
  user : User
  loginName : String
  identityPassword : String
  nodeStoragePassword : String
deriving DecidableEq

def openEnvelope (us : Users) (e : Envelope) (loginName password : String) :
    Except IdentityError ResolvedAccountLogin := do
  let credentials ← need (e.credentials.unseal password) .invalidPassword
  ensure (credentials.binding = e.binding) invalidEnvelope
  let user ← authenticateUser us e.binding.storageUsername credentials.identityPassword
  ensure (user.userId = e.binding.localUserId ∧ user.username = e.binding.storageUsername)
    invalidEnvelope
  pure ⟨user, loginName, credentials.identityPassword, credentials.nodeStoragePassword⟩

def legacyLogin (us : Users) (envelopes : List Envelope) (loginName password : String) :
    Except IdentityError ResolvedAccountLogin := do
  ensure ((envelopes.any fun e => e.binding.storageUsername = loginName) = false) .invalidPassword
  let user ← authenticateUser us loginName (Texts.trim password)
  pure ⟨user, loginName, Texts.trim password, password⟩

def resolveLogin (us : Users) (envelopes : List Envelope) (loginName password : String) :
    Except IdentityError ResolvedAccountLogin :=
  match envelopes.find? fun e => e.binding.loginName = loginName with
  | some e => openEnvelope us e loginName password
  | none => legacyLogin us envelopes loginName password

/-- Resolve the credentials a person types to the local storage owner. -/
def authenticateAccountLogin (us : Users) (loginName password : String) :
    Except IdentityError ResolvedAccountLogin := do
  validateName loginName
  let envelopes ← accountLoginEnvelopes us
  resolveLogin us envelopes loginName password

/-! ### Writing -/

structure Drawn where
  userId : String
  publicKey : String
  secretKey : List UInt8
  createdAt : ℕ
deriving DecidableEq

def newUser (username : String) (d : Drawn) : User :=
  ⟨username, d.userId, d.publicKey, d.createdAt⟩

def newUserDir (username password : String) (d : Drawn) : UserDir :=
  { userJson := some ⟨password, newUser username d⟩
    credentialsJson := some ⟨password, ⟨username, password, d.secretKey⟩⟩
    privateKey := some ⟨password, d.secretKey⟩
    accountLogin := none }

def incompleteAccount : IdentityError :=
  .storageError
    "Incomplete account directory exists; preserve it for account recovery before registering again"

/-- Register a user; `io` says whether its file operations succeed up to the rename that
publishes. -/
def registerUser (us : Users) (username password : String) (drawn : Drawn) (io : Bool) :
    Except IdentityError Users := do
  ensure (validateUsername username = true) .invalidUsername
  ensureAccountLoginAvailable us username username
  match us.get username with
  | some d =>
    if d.userJson.isSome then
      if d.credentialsJson.isNone ∨ d.privateKey.isNone then .error incompleteAccount
      else .error (.userAlreadyExists username)
    else .error (.storageError "Account directory already exists")
  | none =>
    ensure (io = true) ioError
    pure (us.set username (newUserDir username password drawn))

/-- What the host's guard does with the commit it is given. -/
inductive Guard where
  | commit
  | deny (e : IdentityError)
  | ignore
deriving DecidableEq

/-- An installation of an account login; `expectedPreviousAccount` is given by an adoption only. -/
structure InstallCredentials where
  storageUsername : String
  identityPassword : String
  nodeStoragePassword : String
  accountId : String
  canonicalLoginName : String
  rawSharedLoginPassword : String
  expectedPreviousAccount : Option String
deriving DecidableEq

def mayReplace (r : InstallCredentials) (user : User) : Option Envelope → Bool
  | some existing =>
    existing.binding.accountId = r.expectedPreviousAccount.getD r.accountId &&
      existing.binding.localUserId = user.userId
  | none => r.expectedPreviousAccount.isNone

def newEnvelope (r : InstallCredentials) (user : User) : Envelope :=
  let binding : Binding :=
    ⟨envelopeVersion, r.storageUsername, user.userId, r.accountId, r.canonicalLoginName⟩
  ⟨binding, ⟨r.rawSharedLoginPassword, ⟨binding, r.identityPassword, r.nodeStoragePassword⟩⟩⟩

/-- Install or replace the account login of a user; `io` says whether its file operations
succeed. -/
def installAccountLogin (us : Users) (r : InstallCredentials) (guard : Guard) (io : Bool) :
    Except IdentityError Users := do
  validateName r.storageUsername
  validateName r.canonicalLoginName
  ensure (Texts.trim r.rawSharedLoginPassword ≠ "") .invalidPassword
  ensure (validAccountId r.accountId = true) .invalidUserId
  let user ← authenticateUser us r.storageUsername r.identityPassword
  ensure (user.username = r.storageUsername ∧ validateUserId user.userId = true) invalidEnvelope
  ensureAccountLoginAvailable us r.storageUsername r.canonicalLoginName
  let existing ← readAccountLogin us r.storageUsername
  ensure (mayReplace r user existing = true) invalidEnvelope
  ensure ((newEnvelope r user).credentials.content.size ≤ maxEnvelopeBytes / 2) invalidEnvelope
  ensure (io = true) ioError
  match guard with
  | .deny e => .error e
  | .ignore => .error invalidEnvelope
  | .commit =>
    pure (us.modify r.storageUsername fun d => { d with accountLogin := some (newEnvelope r user) })

/-- A user prepared outside the users folder: of a restored account, or of an enrolled device with
its account login. -/
inductive Staged where
  | restored (username password : String) (drawn : Drawn)
  | enrolled (loginName identityPassword nodePassword accountId password : String) (drawn : Drawn)
deriving DecidableEq

def Staged.name : Staged → String
  | .restored username _ _ => username
  | .enrolled loginName _ _ _ _ _ => loginName

def Staged.users : Staged → Except IdentityError Users
  | .restored username password drawn => registerUser ∅ username password drawn true
  | .enrolled loginName identityPassword nodePassword accountId password drawn => do
    let us ← registerUser ∅ loginName identityPassword drawn true
    installAccountLogin us
      ⟨loginName, identityPassword, nodePassword, accountId, loginName, password, none⟩ .commit true

/-- The files of a directory that a clean-up which failed has left. -/
structure Kept where
  userJson : Bool
  credentialsJson : Bool
  privateKey : Bool
  accountLogin : Bool
deriving DecidableEq

def UserDir.part (d : UserDir) (k : Kept) : UserDir :=
  ⟨if k.userJson then d.userJson else none, if k.credentialsJson then d.credentialsJson else none,
    if k.privateKey then d.privateKey else none, if k.accountLogin then d.accountLogin else none⟩

/-- How the publication of a staged user ends: done, or failed, and then rolled back whole or
not. -/
inductive Publication where
  | published
  | failed (left : Option Kept)
deriving DecidableEq

/-- Publish a staged user while the login namespace is reserved. The users folder is given with the
result, since a failed clean-up leaves something behind. -/
def publishNewAccountLogin (us : Users) (staged : Staged) (p : Publication) :
    Users × Except IdentityError Unit :=
  match staged.users, (do
      validateName staged.name
      ensureAccountLoginAvailable us staged.name staged.name
      ensure (us.has staged.name = false) (.userAlreadyExists staged.name)) with
  | .error e, _ => (us, .error e)
  | .ok _, .error e => (us, .error e)
  | .ok stage, .ok () =>
    match stage.get staged.name, p with
    | none, _ => (us, .error ioError)
    | some d, .published => (us.set staged.name d, .ok ())
    | some _, .failed none => (us, .error ioError)
    | some d, .failed (some k) => (us.set staged.name (d.part k), .error ioError)

inductive Action where
  | register (username password : String) (drawn : Drawn) (io : Bool)
  | install (r : InstallCredentials) (guard : Guard) (io : Bool)
  | publish (staged : Staged) (p : Publication)
deriving DecidableEq

def Action.target : Action → String
  | .register username _ _ _ => username
  | .install r _ _ => r.storageUsername
  | .publish staged _ => staged.name

/-- An operation that gives a new users folder or fails, as a step. -/
def settle (us : Users) : Except IdentityError Users → Users × Except IdentityError Unit
  | .ok us' => (us', .ok ())
  | .error e => (us, .error e)

/-- One operation, of any manager or process. -/
def perform (us : Users) : Action → Users × Except IdentityError Unit
  | .register username password drawn io => settle us (registerUser us username password drawn io)
  | .install r guard io => settle us (installAccountLogin us r guard io)
  | .publish staged p => publishNewAccountLogin us staged p

def run (as : List Action) : Users := as.foldl (fun us a => (perform us a).1) ∅

end

end MeshTalk.Identity
