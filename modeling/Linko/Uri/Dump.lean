import Linko.Lib.Signed
import Linko.Uri.Components
/-!
# Printing a URI

`dump` of `uri.rl` and `Create` on what it writes. The text is in a normal form: an
empty path is printed as `/`, the port of the scheme and empty components are left out.
-/

namespace Linko.Uri

open CString Ragel Regex UriParser

def isDefaultPort (u : Uri) : Bool :=
  if u.port = 0 then true
  else if u.scheme = ascii "http" ∨ u.scheme = ascii "ws" then u.port = 80
  else if u.scheme = ascii "https" ∨ u.scheme = ascii "wss" then u.port = 443
  else false

def dump (u : Uri) : Bytes :=
  u.scheme ++ ascii "://" ++ u.userinfo ++ (if u.userinfo = [] then [] else ascii "@") ++ u.host ++
    (if u.isDefaultPort then [] else ascii ":" ++ signed u.port) ++ u.getPath ++
    (if u.query = [] then [] else ascii "?") ++ u.query ++
    (if u.fragment = [] then [] else ascii "#") ++ u.fragment

def toString (u : Uri) : Bytes := u.dump

/-! ## Ports -/

/-- A port that is not printed is the one that `getPort` falls back to. -/
theorem getPort_default {u : Uri} (h : u.isDefaultPort = true) : u.getPort = defaultPort u.scheme := by
  rw [isDefaultPort] at h
  rw [getPort]
  split
  · rename_i hne
    rw [if_neg hne] at h
    rw [defaultPort]
    split
    · rename_i hs
      rw [if_pos hs] at h
      simpa using h
    · rename_i hs
      rw [if_neg hs] at h
      split
      · rename_i hs'
        rw [if_pos hs'] at h
        simpa using h
      · rename_i hs'
        rw [if_neg hs'] at h
        cases h
  · rfl

theorem mem_star_of_has {k : ByteClass} {w : Bytes} (h : ∀ b ∈ w, k.has b = true) : w ∈ (star (cls k)).lang := by
  induction w with
  | nil => exact nil_mem_star _
  | cons b w ih =>
    have hb : [b] ∈ (cls k).lang := ⟨b, h b List.mem_cons_self, rfl⟩
    exact append_mem_star hb (ih fun c hc => h c (List.mem_cons_of_mem b hc))

theorem decimal_mem_port (n : Nat) : decimal n ∈ Grammar.port.lang := by
  have hdigit : ∀ b : UInt8, 48 ≤ b ∧ b ≤ 57 → digit.has b = true := by
    rintro b ⟨hlo, hhi⟩
    rw [UInt8.le_iff_toNat_le] at hlo hhi
    simpa [ByteClass.has, digit] using And.intro hlo hhi
  exact mem_star_of_has fun b hb => hdigit b (decimal_digit hb)

theorem portValue_decimal (n : Nat) : portValue (decimal n) = n :=
  GroupText.digitsFrom_numeral (by decide) (by decide) n

theorem kept_mem {u : Bytes} (h : u ∈ Grammar.userinfo.lang) : kept u ∈ Grammar.userinfo.lang := by
  rcases userinfo_split h with ⟨-, hno⟩ | ⟨v, w, rfl, -, hno, hw⟩
  · rw [kept_plain hno]
    exact h
  · cases w with
    | nil =>
      rw [kept_colon hno]
      exact h
    | cons d w =>
      rw [kept_cons hno]
      split
      · exact hw
      · exact h

/-! ## The printed components -/

namespace Parts

/-- What `Create` makes of the components. -/
def uri (c : Parts) : Uri :=
  ⟨c.scheme, (c.userinfo.map kept).getD [], c.host, c.path, c.query.getD [], c.fragment.getD [],
    (c.port.map fun v => (portValue v : Int)).getD 0⟩

/-- A component that is left out when it is empty. -/
def shown (o : Option Bytes) : Option Bytes := if o.getD [] = [] then none else o

theorem shown_mem {o : Option Bytes} {P : Bytes → Prop} (h : ∀ v ∈ o, P v) : ∀ v ∈ shown o, P v := by
  intro v hv
  rw [shown] at hv
  split at hv
  · cases hv
  · exact h v hv

/-- The port that is printed. -/
def shownPort (c : Parts) : Option Bytes := if c.uri.isDefaultPort then none else c.port.map fun v => decimal (portValue v)

theorem shown_kept_mem (c : Parts) : ∀ v ∈ shown (c.userinfo.map kept), v ∈ Grammar.userinfo.lang := by
  refine shown_mem fun v hv => ?_
  obtain ⟨u, hu, rfl⟩ := Option.map_eq_some_iff.1 hv
  exact kept_mem (c.userinfo_mem u hu)

theorem shownPort_mem (c : Parts) :
    ∀ v ∈ c.shownPort, v ∈ Grammar.port.lang ∧ 1 ≤ portValue v ∧ portValue v ≤ 65535 := by
  intro v hv
  rw [shownPort] at hv
  split at hv
  · cases hv
  · obtain ⟨d, hd, rfl⟩ := Option.map_eq_some_iff.1 hv
    rw [portValue_decimal]
    exact ⟨decimal_mem_port _, (c.port_mem d hd).2⟩

theorem shownPath_mem (c : Parts) : (if c.path = [] then ascii "/" else c.path) ∈ Grammar.pathAbempty.lang := by
  split
  · decide
  · exact c.path_mem

/-- The components of the text that `dump` writes. -/
def normal (c : Parts) : Parts where
  scheme := c.scheme
  userinfo := shown (c.userinfo.map kept)
  host := c.host
  port := c.shownPort
  path := if c.path = [] then ascii "/" else c.path
  query := shown c.query
  fragment := shown c.fragment
  scheme_mem := c.scheme_mem
  userinfo_mem := c.shown_kept_mem
  host_mem := c.host_mem
  port_mem := c.shownPort_mem
  path_mem := c.shownPath_mem
  query_mem := shown_mem c.query_mem
  fragment_mem := shown_mem c.fragment_mem

theorem shown_eq (o : Option Bytes) : shown o = if o.getD [] = [] then none else some (o.getD []) := by
  rw [shown]
  split
  · rfl
  · cases o with
    | none => simp_all
    | some v => rfl

theorem getD_shown (o : Option Bytes) : (shown o).getD [] = o.getD [] := by
  rw [shown_eq]
  split
  · rename_i h
    rw [h]
    rfl
  · rfl

theorem portText_shown (c : Parts) :
    portText c.shownPort = if c.uri.isDefaultPort then [] else ascii ":" ++ signed c.uri.port := by
  rw [shownPort]
  split
  · rfl
  · rename_i h
    cases hp : c.port with
    | none =>
      -- without a port there is nothing to print
      refine absurd ?_ h
      rw [isDefaultPort, if_pos]
      rw [uri, hp]
      rfl
    | some v =>
      have hport : c.uri.port = (portValue v : Int) := by
        rw [uri, hp]
        rfl
      rw [hport, signed, if_neg (by omega)]
      rfl

/-- `dump` writes them. -/
theorem dump_uri (c : Parts) : c.uri.dump = c.normal.text := by
  have huser : ∀ o, userinfoText (shown o) = o.getD [] ++ if o.getD [] = [] then [] else ascii "@" := by
    intro o
    rw [shown_eq]
    split <;> simp_all [userinfoText, ascii]
  have hquery : ∀ o, queryText (shown o) = (if o.getD [] = [] then [] else ascii "?") ++ o.getD [] := by
    intro o
    rw [shown_eq]
    split <;> simp_all [queryText, ascii]
  have hfragment : ∀ o, fragmentText (shown o) = (if o.getD [] = [] then [] else ascii "#") ++ o.getD [] := by
    intro o
    rw [shown_eq]
    split <;> simp_all [fragmentText, ascii]
  have hport := c.portText_shown
  have hmark : ascii "://" = [58, 47, 47] := rfl
  simp only [text, normal, huser, hport, hquery, hfragment]
  simp only [dump, hmark, getPath, List.append_assoc, List.cons_append, List.nil_append]
  rfl

/-! ## Round trip -/

/-- The two agree in everything that a caller can ask but the userinfo. -/
def Alike (u v : Uri) : Prop :=
  v.getScheme = u.getScheme ∧ v.getHost = u.getHost ∧ v.getPort = u.getPort ∧ v.getPath = u.getPath ∧
    v.getQuery = u.getQuery ∧ v.getFragment = u.getFragment

/-- The port is kept unless it is the default one. -/
theorem port_normal (c : Parts) : c.normal.uri.port = if c.uri.isDefaultPort then 0 else c.uri.port := by
  show ((c.shownPort).map _).getD 0 = if c.uri.isDefaultPort then 0 else (c.port.map _).getD 0
  rw [shownPort]
  split
  · rfl
  · rw [Option.map_map]
    congr 2
    funext v
    exact congrArg Int.ofNat (portValue_decimal _)

theorem isDefaultPort_normal (c : Parts) : c.normal.uri.isDefaultPort = c.uri.isDefaultPort := by
  have hport := c.port_normal
  have hscheme : c.normal.uri.scheme = c.uri.scheme := rfl
  by_cases hd : c.uri.isDefaultPort = true
  · rw [if_pos hd] at hport
    rw [hd, isDefaultPort, if_pos hport]
  · rw [if_neg hd] at hport
    rw [isDefaultPort, hport, hscheme]
    rfl

theorem getPort_normal (c : Parts) : c.normal.uri.getPort = c.uri.getPort := by
  have hport := c.port_normal
  by_cases hd : c.uri.isDefaultPort = true
  · rw [if_pos hd] at hport
    rw [getPort_default hd, getPort, hport]
    rfl
  · rw [if_neg hd] at hport
    rw [getPort, getPort, hport]
    rfl

theorem getPath_normal (c : Parts) : c.normal.uri.getPath = c.uri.getPath := by
  rw [getPath, getPath, show c.normal.uri.path = if c.path = [] then ascii "/" else c.path from rfl,
    show c.uri.path = c.path from rfl]
  by_cases h : c.path = []
  · rw [if_pos h, if_neg (by decide)]
  · rw [if_neg h, if_neg h]

theorem alike_normal (c : Parts) : Alike c.uri c.normal.uri :=
  ⟨rfl, rfl, c.getPort_normal, c.getPath_normal, getD_shown c.query, getD_shown c.fragment⟩

theorem userinfo_normal (c : Parts) : c.normal.uri.userinfo = kept c.uri.userinfo := by
  show ((shown (c.userinfo.map kept)).map kept).getD [] = kept ((c.userinfo.map kept).getD [])
  rw [shown_eq]
  split
  · rename_i h
    rw [h]
    rfl
  · rfl

/-- What `dump` writes behind the userinfo. -/
def rest (u : Uri) : Bytes :=
  u.host ++ (if u.isDefaultPort then [] else ascii ":" ++ signed u.port) ++ u.getPath ++
    (if u.query = [] then [] else ascii "?") ++ u.query ++
    (if u.fragment = [] then [] else ascii "#") ++ u.fragment

theorem dump_split (u : Uri) :
    u.dump = u.scheme ++ ascii "://" ++ (u.userinfo ++ (if u.userinfo = [] then [] else ascii "@") ++ rest u) := by
  simp only [dump, rest, List.append_assoc]

theorem rest_normal (c : Parts) : rest c.normal.uri = rest c.uri := by
  have hhost : c.normal.uri.host = c.uri.host := rfl
  have hquery : c.normal.uri.query = c.uri.query := getD_shown c.query
  have hfragment : c.normal.uri.fragment = c.uri.fragment := getD_shown c.fragment
  rw [rest, rest, c.isDefaultPort_normal, c.getPath_normal, hhost, hquery, hfragment, c.port_normal]
  split <;> rfl

/-- The userinfo can be read off the text. -/
theorem dump_normal_iff (c : Parts) : c.normal.uri.dump = c.uri.dump ↔ kept c.uri.userinfo = c.uri.userinfo := by
  have hscheme : c.normal.uri.scheme = c.uri.scheme := rfl
  rw [dump_split, dump_split, c.rest_normal, c.userinfo_normal, hscheme, List.append_cancel_left_eq,
    List.append_cancel_right_eq]
  constructor
  · intro h
    have hlen := congrArg List.length h
    by_contra hne
    -- what is kept of a userinfo that is cut is not empty
    obtain ⟨v, d, ds, hu, hv, hd⟩ := not_not.1 (mt (kept_iff _).2 hne)
    rw [hu, kept_cons hv, if_pos hd] at hlen
    simp at hlen
    omega
  · intro h
    rw [h]

end Parts

end Linko.Uri
