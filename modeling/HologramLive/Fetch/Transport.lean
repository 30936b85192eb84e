import HologramLive.Fetch.Address
import HologramLive.Json
import HologramLive.Lib.Program

/-! What a worker thread of the HTTPS transport does for one target. -/

namespace HologramLive.Fetch
open Lib

def fetchTargetMaxBytes : Nat := 2 * 1024

def fetchResponseMaxBytes : Nat := 1024 * 1024

def fetchConcurrencyMax : Nat := 8

structure FetchResponse where
  status : Nat
  body : Bytes

structure SocketAddr where
  ip : IpAddr
  port : Nat

/-- A response up to its body. -/
structure Head where
  status : Nat
  contentLength : Option Nat

/-- What the operation asks of the resolver and of the client, which is built once for it. -/
inductive NetCall : Type → Type where
  | toSocketAddrs (host : String) (port : Nat) : NetCall (Option (List SocketAddr))
  | build (host : String) (addresses : List SocketAddr) : NetCall Bool
  | send (target : String) : NetCall (Option Head)
  | body : NetCall (Option Bytes)

/-- How the network would answer each call now. -/
structure Answers where
  resolved : Option (List SocketAddr)
  built : Bool
  head : Option Head
  body : Option Bytes

/-- The addresses that a client was built to connect to for a host. -/
structure Offer where
  host : String
  addresses : List SocketAddr

def serve {β : Type} : NetCall β → Answers → List Offer → β × List Offer
  | .toSocketAddrs _ _, answers, offers => (answers.resolved, offers)
  | .build host addresses, answers, offers => (answers.built, offers ++ [⟨host, addresses⟩])
  | .send _, answers, offers => (answers.head, offers)
  | .body, answers, offers => (answers.body, offers)

/-- `str::split_once`. -/
def splitOnce (mark : Char) (text : List Char) : Option (List Char × List Char) :=
  match text.span (· ≠ mark) with
  | (front, _ :: back) => some (front, back)
  | (_, []) => none

def rsplitOnce (mark : Char) (text : List Char) : Option (List Char × List Char) :=
  (splitOnce mark text.reverse).map fun (back, front) => (front.reverse, back.reverse)

def stripPrefix (start text : List Char) : Option (List Char) :=
  if start <+: text then some (text.drop start.length) else none

def parseU16 (text : String) : Option Nat := (parseU64 text).filter (· < 2 ^ 16)

def notCanonical : String := "fetch target is not a canonical HTTPS endpoint"

def targetAuthority (target : String) : Except String (String × Nat) := do
  let (authority, _) ← (((stripPrefix "https://".toList target.toList).bind
    (splitOnce '/')).elim (.error notCanonical) .ok)
  let (host, port) ← ((rsplitOnce ':' authority).elim (.error notCanonical) .ok)
  let port ← ((parseU16 (.ofList port)).elim (.error notCanonical) .ok)
  return (.ofList host, port)

/-- The body is read up to one byte past the limit. -/
def httpsGet (target : String) : Program NetCall String FetchResponse := do
  let (host, port) ← .ofExcept (targetAuthority target)
  let some resolved ← .perform (.toSocketAddrs host port) | .fail "fetch DNS resolution failed"
  let addresses := resolved.filter fun address => isPublicDestination address.ip
  if addresses.isEmpty then .fail "fetch destination is forbidden by host address policy"
  else
    let built ← .perform (.build host addresses)
    if !built then .fail "fetch transport initialization failed"
    else
      let some head ← .perform (.send target) | .fail "fetch request failed"
      if head.contentLength.any (fetchResponseMaxBytes < ·) then
        .fail "fetch response exceeds the host limit"
      else
        let some stream ← .perform .body | .fail "fetch response read failed"
        let body := stream.take (fetchResponseMaxBytes + 1)
        if fetchResponseMaxBytes < body.length then .fail "fetch response exceeds the host limit"
        else .done ⟨head.status, body⟩

/-- Every address that was offered to a client passed the check, and was resolved. -/
def OffersWithin (resolvable : IpAddr → Prop) (offers : List Offer) : Prop :=
  ∀ offer ∈ offers, ∀ address ∈ offer.addresses,
    isPublicDestination address.ip ∧ resolvable address.ip

/-- The resolver names only such addresses. -/
def ResolvesWithin (resolvable : IpAddr → Prop) (answers : Answers) : Prop :=
  ∀ addresses, answers.resolved = some addresses → ∀ address ∈ addresses, resolvable address.ip

/-- What an operation of the transport keeps to, wherever it is cut off. -/
def Keeps (resolvable : IpAddr → Prop) (program : Program NetCall String FetchResponse)
    (offers : List Offer) : Prop :=
  program.Ensures serve (ResolvesWithin resolvable) (OffersWithin resolvable)
    (fun result _ => ∀ response, result = .ok response →
      response.body.length ≤ fetchResponseMaxBytes) offers

variable {resolvable : IpAddr → Prop} {offers : List Offer}

theorem Keeps.failed (error : String) (h : OffersWithin resolvable offers) :
    Keeps resolvable (.fail error) offers :=
  ⟨h, fun _ hresponse => nomatch hresponse⟩

theorem httpsGet_keeps (target : String) (h : OffersWithin resolvable offers) :
    Keeps resolvable (httpsGet target) offers := by
  unfold Keeps httpsGet
  apply Program.Ensures.ofExcept h
  · intro error _ response hresponse
    cases hresponse
  rintro ⟨host, port⟩ -
  refine ⟨h, fun resolution hresolution => ?_⟩
  cases hresolved : resolution.resolved with
  | none =>
    simp only [serve, hresolved, Program.bind]
    exact Keeps.failed _ h
  | some resolved =>
  simp only [serve, hresolved, Program.bind]
  split
  · exact Keeps.failed _ h
  refine ⟨h, fun building _ => ?_⟩
  have hoffers : OffersWithin resolvable (offers ++
      [⟨host, resolved.filter fun address => isPublicDestination address.ip⟩]) := by
    intro offer hoffer address haddress
    rcases List.mem_append.mp hoffer with hold | hnew
    · exact h offer hold address haddress
    · obtain rfl := List.mem_singleton.mp hnew
      obtain ⟨hmem, hpublic⟩ := List.mem_filter.mp haddress
      exact ⟨hpublic, hresolution resolved hresolved address hmem⟩
  cases hbuilt : building.built with
  | false =>
    simp only [serve, hbuilt, Program.bind]
    exact Keeps.failed _ hoffers
  | true =>
  simp only [serve, hbuilt, Program.bind, Bool.not_true, Bool.false_eq_true, ↓reduceIte]
  refine ⟨hoffers, fun sending _ => ?_⟩
  cases hhead : sending.head with
  | none =>
    simp only [serve, hhead, Program.bind]
    exact Keeps.failed _ hoffers
  | some head =>
  simp only [serve, hhead, Program.bind]
  split
  · exact Keeps.failed _ hoffers
  refine ⟨hoffers, fun reading _ => ?_⟩
  cases hbody : reading.body with
  | none =>
    simp only [serve, hbody, Program.bind]
    exact Keeps.failed _ hoffers
  | some stream =>
    simp only [serve, hbody, Program.bind]
    split
    · exact Keeps.failed _ hoffers
    · rename_i hsize
      refine ⟨hoffers, fun response hresponse => ?_⟩
      obtain rfl := Except.ok.inj hresponse
      exact Nat.le_of_not_lt hsize

end HologramLive.Fetch
