import Mathlib

/-!
# Certificates of the proxy

A proxy serves one certificate for each host.  Certificates and their keys lie in a
directory, and the entries that are served are kept in memory together with where they
came from: a file that an operator placed there, or an order that the proxy made itself.
-/

namespace Jiji
namespace Proxy

section Wildcards

/-- The wildcard that covers a host: its first label is replaced. -/
def parentWildcardKey (host : String) : Option String :=
  match host.toList.dropWhile (· ≠ '.') with
  | '.' :: character :: rest => some ("*." ++ String.ofList (character :: rest))
  | _ => none

def isWildcardHost (host : String) : Bool :=
  "*.".toList.isPrefixOf host.toList

end Wildcards

section Keys

/-- A certificate: the public key that it is about, if that can be read, and the second at
which it expires. -/
structure X509 where
  publicKey : Except String String
  notAfter : ℕ
  deriving DecidableEq

/-- A private key, known by its public key. -/
structure PKey where
  publicKey : String
  deriving DecidableEq, Repr

/-- The library that reads certificates and keys and computes dates. -/
structure OpenSsl where
  certFromPem : String → Except String X509
  keyFromPem : String → Except String PKey
  daysFromNow : ℕ → ℕ → Except String ℕ
  daysFromNow_eq : ∀ now days threshold, daysFromNow now days = .ok threshold →
    threshold = now + 86400 * days

/-- Where a certificate came from. -/
inductive CertSource
  | static
  | acme
  deriving DecidableEq, Repr

structure CertEntry where
  cert : X509
  key : PKey
  source : CertSource
  deriving DecidableEq

end Keys

section Store

/-- The contents of the files of each host. -/
structure CertDirectory where
  crt : String → Option String
  key : String → Option String

/-- The directory of the certificates and the entries that are served. -/
structure CertStore where
  dir : CertDirectory
  entries : String → Option CertEntry

/-- The contents of a file, or the error of the operating system. -/
def readFile (contents : Option String) : Except String String :=
  match contents with
  | some text => .ok text
  | none => .error "No such file or directory (os error 2)"

/-- The pair of a host in a directory. -/
def CertDirectory.pair
    (ssl : OpenSsl)
    (dir : CertDirectory)
    (host mismatch : String) : Except String (X509 × PKey) := do
  let cert ← ssl.certFromPem (← readFile (dir.crt host))
  let key ← ssl.keyFromPem (← readFile (dir.key host))
  if (← cert.publicKey) = key.publicKey then
    .ok (cert, key)
  else
    .error mismatch

namespace CertStore

/-- Read a directory when the proxy starts; pairs that cannot be read are skipped. -/
def load (ssl : OpenSsl) (dir : CertDirectory) : CertStore where
  dir := dir
  entries host :=
    match dir.pair ssl host "certificate and private key do not match" with
    | .ok (cert, key) => some ⟨cert, key, .static⟩
    | .error _ => none

/-- The entry of a host, or the one of the wildcard that covers it. -/
def get (store : CertStore) (host : String) : Option CertEntry :=
  match store.entries host with
  | some entry => some entry
  | none => (parentWildcardKey host).bind store.entries

/-- The number of days before its end at which a certificate is renewed. -/
def renewalDays (renewBefore : ℕ) : ℕ :=
  max (renewBefore / 86400) 1 % 2 ^ 32

/-- Whether a certificate has to be ordered for a host. -/
def needsIssuance
    (ssl : OpenSsl)
    (now : ℕ)
    (store : CertStore)
    (host : String)
    (renewBefore : ℕ) : Bool :=
  match store.get host with
  | none => true
  | some entry =>
      match entry.source with
      | .static => false
      | .acme =>
          match ssl.daysFromNow now (renewalDays renewBefore) with
          | .error _ => true
          | .ok threshold => entry.cert.notAfter < threshold

def writeCrt (store : CertStore) (host pem : String) : CertStore :=
  { store with dir := { store.dir with crt := Function.update store.dir.crt host (some pem) } }

def writeKey (store : CertStore) (host pem : String) : CertStore :=
  { store with dir := { store.dir with key := Function.update store.dir.key host (some pem) } }

def insert (store : CertStore) (host : String) (entry : CertEntry) : CertStore :=
  { store with entries := Function.update store.entries host (some entry) }

/-- Serve the pair of a host that lies in the directory. -/
def reloadStatic (ssl : OpenSsl) (store : CertStore) (host : String) :
    Except String CertStore := do
  let (cert, key) ←
    store.dir.pair ssl host s!"certificate and private key do not match for host '{host}'"
  .ok (store.insert host ⟨cert, key, .static⟩)

variable {ssl : OpenSsl} {store : CertStore} {host other pem : String} {entry : CertEntry}
variable {now renewBefore : ℕ}

@[simp] theorem writeCrt_entries : (store.writeCrt host pem).entries = store.entries := rfl

@[simp] theorem writeKey_entries : (store.writeKey host pem).entries = store.entries := rfl

@[simp] theorem insert_dir : (store.insert host entry).dir = store.dir := rfl

@[simp] theorem insert_self : (store.insert host entry).entries host = some entry := by
  simp [insert]

theorem insert_of_ne (different : other ≠ host) :
    (store.insert host entry).entries other = store.entries other := by
  simp [insert, different]

/-- A certificate is never ordered for a host with a static one of its own. -/
theorem source_ne_static_of_needsIssuance
    (needs : store.needsIssuance ssl now host renewBefore = true)
    (found : store.entries host = some entry) :
    entry.source ≠ .static := by
  intro static
  simp [needsIssuance, get, found, static] at needs

/-- A certificate that the proxy ordered is due if it ends before as many days as the time
before renewal has. -/
theorem needsIssuance_of_acme
    (found : store.entries host = some entry)
    (ordered : entry.source = .acme)
    (ends : entry.cert.notAfter < now + 86400 * renewalDays renewBefore) :
    store.needsIssuance ssl now host renewBefore = true := by
  simp only [needsIssuance, get, found, ordered]
  cases computed : ssl.daysFromNow now (renewalDays renewBefore) with
  | error error => rfl
  | ok threshold =>
      rw [← ssl.daysFromNow_eq now _ threshold computed] at ends
      simpa using ends

/-- A time before renewal of whole days is kept. -/
theorem le_renewalDays
    (whole : 86400 ∣ renewBefore)
    (bounded : renewBefore / 86400 < 2 ^ 32) :
    renewBefore ≤ 86400 * renewalDays renewBefore := by
  obtain ⟨days, rfl⟩ := whole
  rw [Nat.mul_div_cancel_left days (by decide)] at bounded
  rw [renewalDays, Nat.mul_div_cancel_left days (by decide)]
  rw [Nat.mod_eq_of_lt (by omega)]
  omega

/-- What a reload does. -/
theorem reloadStatic_eq_ok
    (succeeds : store.reloadStatic ssl host = .ok reloaded) :
    ∃ cert key, reloaded = store.insert host ⟨cert, key, .static⟩ := by
  unfold reloadStatic at succeeds
  cases read : store.dir.pair ssl host
      s!"certificate and private key do not match for host '{host}'" with
  | error error =>
      rw [read] at succeeds
      cases succeeds
  | ok pair =>
      rw [read] at succeeds
      exact ⟨pair.1, pair.2, (Except.ok.inj succeeds).symm⟩

end CertStore

end Store

end Proxy
end Jiji
