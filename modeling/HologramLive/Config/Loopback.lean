import HologramLive.Config.Load
import HologramLive.Lib.Authority

/-! Endpoints over plain HTTP, and whose machine they are on. -/

namespace HologramLive.Config
open Lib Lib.Authority

def requireSecureUrl (url : String) : Except LiveError Unit :=
  ensure (["https://", "http://127.0.0.1", "http://localhost"].any fun start =>
      start.toList.isPrefixOf url.toList)
    s!"update URL must use HTTPS unless it is loopback: {url}"

/-- The names of this machine that an endpoint may have. -/
def endpointHosts : List String := ["127.0.0.1", "localhost", "[::1]"]

def updateHosts : List String := ["127.0.0.1", "localhost"]

/-- Only this machine is spoken to in plain text. -/
def PlainToLoopback (hosts : List String) (url : String) : Prop :=
  scheme url.toList = "https".toList ∨ ∃ name ∈ hosts, host url.toList = name.toList

instance (hosts : List String) (url : String) : Decidable (PlainToLoopback hosts url) :=
  inferInstanceAs (Decidable (_ ∨ _))

/-- What stands after the name of a host leaves a name of the list in its place: nothing or
a port follows, or else what follows is all user information before another such name. -/
def StaysHost (hosts : List String) (rest : List Char) : Prop :=
  if '@' ∈ upToPath rest then
    ∃ name ∈ hosts, ∃ port, afterLastAt (upToPath rest) = name.toList ++ port ∧ Port port
  else Port (upToPath rest)

/-- Where the URL begins with HTTP and a name of this machine, it goes on as it should. -/
def KeepsHost (hosts : List String) (url : String) : Prop :=
  ∀ name ∈ hosts, ∀ rest, url.toList = "http://".toList ++ name.toList ++ rest → StaysHost hosts rest

/-- What both checks come to. -/
def StartsSecure (hosts : List String) (url : String) : Prop :=
  "https://".toList <+: url.toList ∨
    ∃ name ∈ hosts, "http://".toList ++ name.toList <+: url.toList

section
variable {hosts : List String} {url : String}

theorem ensure_ok {condition : Prop} [Decidable condition] {message : String} :
    ensure condition message = .ok () ↔ condition := by
  unfold ensure
  split <;> simp [*]

theorem validateEndpoint_ok {isLocal : Bool} :
    validateEndpoint url isLocal = .ok () ↔ StartsSecure endpointHosts url := by
  rw [validateEndpoint, ensure_ok]
  simp [StartsSecure, endpointHosts]

theorem requireSecureUrl_ok : requireSecureUrl url = .ok () ↔ StartsSecure updateHosts url := by
  rw [requireSecureUrl, ensure_ok]
  simp [StartsSecure, updateHosts]

/-- The names of a list can be hosts, and none begins with another. -/
structure HostList (hosts : List String) : Prop where
  hostName : ∀ name ∈ hosts, HostName name.toList
  apart : ∀ name ∈ hosts, ∀ other ∈ hosts, name.toList <+: other.toList → name = other

theorem hostName_ipv4 : HostName "127.0.0.1".toList :=
  ⟨by simp [upToPort], by decide, by simp [delimiters]⟩

theorem hostName_localhost : HostName "localhost".toList :=
  ⟨by simp [upToPort], by decide, by simp [delimiters]⟩

theorem hostName_ipv6 : HostName "[::1]".toList :=
  ⟨by simp [upToPort], by decide, by simp [delimiters]⟩

theorem endpointHosts_list : HostList endpointHosts := by
  refine ⟨?_, by decide⟩
  simpa [endpointHosts] using And.intro hostName_ipv4 ⟨hostName_localhost, hostName_ipv6⟩

theorem updateHosts_list : HostList updateHosts := by
  refine ⟨?_, by decide⟩
  simpa [updateHosts] using And.intro hostName_ipv4 hostName_localhost

/-- The hosts of the list that a text between the user information and the path names. -/
theorem HostList.upToPort_mem (h : HostList hosts) {text : List Char} :
    (∃ name ∈ hosts, upToPort false text = name.toList) ↔
      ∃ name ∈ hosts, ∃ port, text = name.toList ++ port ∧ Port port := by
  constructor
  · intro ⟨name, hname, hhost⟩
    obtain ⟨port, htext, hport⟩ := upToPort_rest false text
    exact ⟨name, hname, port, hhost ▸ htext, hport⟩
  · intro ⟨name, hname, port, htext, hport⟩
    rw [htext]
    exact ⟨name, hname, (h.hostName name hname).upToPort_append hport⟩

/-- The host is in the list where what follows the name at the front keeps it there. -/
theorem HostList.host_mem (h : HostList hosts) {name : String} (hname : name ∈ hosts)
    {rest : List Char} :
    (∃ other ∈ hosts, host ("http://".toList ++ name.toList ++ rest) = other.toList) ↔
      StaysHost hosts rest := by
  have hhost := h.hostName name hname
  have hauthority : authority ("http://".toList ++ name.toList ++ rest)
      = name.toList ++ upToPath rest := by
    have happend := @authority_append (name.toList ++ rest) "http".toList (by decide)
    rw [upToPath_append hhost.inAuthority] at happend
    simpa using happend
  rw [host, hauthority, StaysHost]
  split
  · rename_i hat
    rw [afterLastAt_of_mem hat]
    exact h.upToPort_mem
  · rename_i hat
    rw [afterLastAt_append hat, afterLastAt_self hhost.noAt, hhost.whole]
    constructor
    · rintro ⟨other, hother, hsame⟩
      obtain rfl := h.apart name hname other hother ⟨_, hsame⟩
      exact upToPort_eq_nil.mp (by simpa using hsame)
    · intro hport
      exact ⟨name, hname, by rw [upToPort_eq_nil.mpr hport, List.append_nil]⟩

/-- What begins as it should is spoken to over HTTPS or on this machine, unless the name of
this machine goes on into another host. -/
theorem HostList.plain_iff (h : HostList hosts) :
    (StartsSecure hosts url → PlainToLoopback hosts url) ↔ KeepsHost hosts url := by
  constructor
  · intro hplain name hname rest hurl
    have hstart : "http://".toList ++ name.toList <+: url.toList := ⟨rest, hurl.symm⟩
    rcases hplain (.inr ⟨name, hname, hstart⟩) with hscheme | hhost
    · rw [hurl] at hscheme
      simp [scheme] at hscheme
    · rw [hurl] at hhost
      exact (h.host_mem hname).mp hhost
  · intro hkeeps hstart
    rcases hstart with ⟨rest, hrest⟩ | ⟨name, hname, rest, hrest⟩
    · left
      rw [← hrest]
      simp [scheme]
    · right
      have hstays := hkeeps name hname rest hrest.symm
      rw [← hrest]
      exact (h.host_mem hname).mpr hstays

/-- The two checks keep plain text on this machine for those URLs whose loopback name is the
whole of their host. -/
theorem plain_to_loopback (url : String) :
    ((∀ isLocal, validateEndpoint url isLocal = .ok () → PlainToLoopback endpointHosts url) ↔
      KeepsHost endpointHosts url) ∧
    ((requireSecureUrl url = .ok () → PlainToLoopback updateHosts url) ↔
      KeepsHost updateHosts url) := by
  constructor
  · rw [← endpointHosts_list.plain_iff]
    constructor
    · intro h hstart
      exact h true (validateEndpoint_ok.mpr hstart)
    · intro h isLocal hvalid
      exact h (validateEndpoint_ok.mp hvalid)
  · rw [← updateHosts_list.plain_iff, requireSecureUrl_ok]

/-- A host that only begins with the name of this machine. -/
theorem plain_elsewhere :
    validateEndpoint "http://localhost.example.com/v1" false = .ok () ∧
    requireSecureUrl "http://127.0.0.1:80@example.com/update" = .ok () ∧
    ¬ PlainToLoopback endpointHosts "http://localhost.example.com/v1" ∧
    ¬ PlainToLoopback updateHosts "http://127.0.0.1:80@example.com/update" := by
  exact ⟨rfl, rfl, by decide, by decide⟩

end
end HologramLive.Config
