import Mathlib.Data.List.DropRight

/-! The scheme of a URL and the host in its authority, which stands after the last `@` and
before the port. -/

namespace HologramLive.Lib.Authority

def scheme (url : List Char) : List Char := url.takeWhile (· ≠ ':')

/-- What ends an authority. A backslash counts as a slash here, as it does over HTTP. -/
def delimiters : List Char := ['/', '\\', '?', '#']

def upToPath (text : List Char) : List Char := text.takeWhile (· ∉ delimiters)

def authority (url : List Char) : List Char := upToPath (url.drop ((scheme url).length + 3))

def afterLastAt (text : List Char) : List Char := text.rtakeWhile (· ≠ '@')

/-- A host ends at a colon that does not stand between brackets. -/
def upToPort (bracketed : Bool) : List Char → List Char
  | [] => []
  | c :: rest =>
    if c = ':' ∧ bracketed = false then []
    else c :: upToPort (if c = '[' then true else if c = ']' then false else bracketed) rest

def host (url : List Char) : List Char := upToPort false (afterLastAt (authority url))

/-- What may follow a host in its authority. -/
def Port (rest : List Char) : Prop := rest = [] ∨ rest.head? = some ':'

instance (rest : List Char) : Decidable (Port rest) := by
  unfold Port
  infer_instance

/-- A host as it stands in an authority. -/
structure HostName (name : List Char) : Prop where
  whole : ∀ rest, upToPort false (name ++ rest) = name ++ upToPort false rest
  noAt : '@' ∉ name
  inAuthority : ∀ c ∈ name, c ∉ delimiters

variable {name rest text : List Char}

theorem upToPort_eq_nil : upToPort false rest = [] ↔ Port rest := by
  cases rest with
  | nil => simp [upToPort, Port]
  | cons c rest => simp [upToPort, Port]

theorem upToPort_rest (bracketed : Bool) (text : List Char) :
    ∃ rest, text = upToPort bracketed text ++ rest ∧ Port rest := by
  induction text generalizing bracketed with
  | nil => exact ⟨[], by simp [upToPort], .inl rfl⟩
  | cons c text ih =>
    rw [upToPort]
    split
    · rename_i hport
      exact ⟨c :: text, rfl, .inr (by simp [hport.1])⟩
    · obtain ⟨rest, hrest, hport⟩ := ih (if c = '[' then true else if c = ']' then false else bracketed)
      refine ⟨rest, ?_, hport⟩
      rw [List.cons_append, ← hrest]

theorem HostName.upToPort_append (h : HostName name) (hport : Port rest) :
    upToPort false (name ++ rest) = name := by
  rw [h.whole, upToPort_eq_nil.mpr hport, List.append_nil]

theorem upToPath_append (h : ∀ c ∈ name, c ∉ delimiters) :
    upToPath (name ++ rest) = name ++ upToPath rest :=
  List.takeWhile_append_of_pos (by simpa using h)

theorem afterLastAt_append (h : '@' ∉ rest) : afterLastAt (text ++ rest) = afterLastAt text ++ rest := by
  have hrest : ∀ c ∈ rest.reverse, (decide (c ≠ '@')) = true := by
    intro c hc
    have hne : c ≠ '@' := fun heq => h (heq ▸ List.mem_reverse.mp hc)
    simpa using hne
  rw [afterLastAt, List.rtakeWhile, List.reverse_append, List.takeWhile_append_of_pos hrest,
    List.reverse_append, List.reverse_reverse]
  rfl

theorem afterLastAt_of_mem (h : '@' ∈ rest) : afterLastAt (text ++ rest) = afterLastAt rest := by
  have hnot : ¬ (rest.reverse.takeWhile (· ≠ '@')).length = rest.reverse.length := by
    intro hlength
    have hall := List.takeWhile_eq_self_iff.mp
      ((List.takeWhile_prefix _).eq_of_length hlength) '@' (List.mem_reverse.mpr h)
    simp at hall
  rw [afterLastAt, List.rtakeWhile, List.reverse_append, List.takeWhile_append, if_neg hnot]
  rfl

theorem afterLastAt_self (h : '@' ∉ text) : afterLastAt text = text := by
  simpa [afterLastAt] using @afterLastAt_append text [] h

theorem scheme_append {first : List Char} (h : ':' ∉ first) :
    scheme (first ++ "://".toList ++ rest) = first := by
  have hfirst : ∀ c ∈ first, (decide (c ≠ ':')) = true := by
    intro c hc
    have hne : c ≠ ':' := fun heq => h (heq ▸ hc)
    simpa using hne
  rw [scheme, List.append_assoc, List.takeWhile_append_of_pos hfirst]
  simp

theorem authority_append {first : List Char} (h : ':' ∉ first) :
    authority (first ++ "://".toList ++ rest) = upToPath rest := by
  have hlength : first.length + 3 = (first ++ "://".toList).length := by simp
  rw [authority, scheme_append h, hlength, List.drop_left]

/-- The host of a URL that is put together from its parts. -/
theorem host_of_parts {first userinfo port path : List Char} (hfirst : ':' ∉ first)
    (huserinfo : ∀ c ∈ userinfo, c ∉ delimiters)
    (huser : userinfo = [] ∨ userinfo.getLast? = some '@') (hname : HostName name)
    (hport : Port port) (hdigits : ∀ c ∈ port, c ∉ delimiters ∧ c ≠ '@')
    (hpath : ∀ c, path.head? = some c → c ∈ delimiters) :
    host (first ++ "://".toList ++ (userinfo ++ (name ++ (port ++ path)))) = name := by
  have hnone : upToPath path = [] := by
    cases path with
    | nil => rfl
    | cons c path => simp [upToPath, hpath c rfl]
  have hauthority : upToPath (userinfo ++ (name ++ (port ++ path))) = userinfo ++ (name ++ port) := by
    rw [upToPath_append huserinfo, upToPath_append hname.inAuthority,
      upToPath_append fun c hc => (hdigits c hc).1, hnone, List.append_nil]
  have hrest : '@' ∉ name ++ port := by
    have hdigits' : '@' ∉ port := fun hat => (hdigits '@' hat).2 rfl
    simp [hname.noAt, hdigits']
  have hlast : afterLastAt userinfo = [] := by
    rcases huser with rfl | hlast
    · rfl
    · obtain ⟨before, rfl⟩ := List.getLast?_eq_some_iff.mp hlast
      exact List.rtakeWhile_concat_neg _ _ _ (by simp)
  rw [host, authority_append hfirst, hauthority, afterLastAt_append hrest, hlast, List.nil_append,
    hname.upToPort_append hport]

end HologramLive.Lib.Authority
