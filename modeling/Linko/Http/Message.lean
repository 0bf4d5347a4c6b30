import Linko.Lib.Blocks
import Linko.Lib.CString
/-!
# Requests and responses

`http.h` and `http.cc`: methods, status codes, the header map and the two
message classes with their `dump`. A `std::string` is a list of bytes. The
fields that neither a parser nor `dump` touches (`m_status` of a request,
`m_params`, `m_cookies`) are left out.
-/

namespace Linko.Http

open CString

/-- What can end a run of this code: a failed `assert`, `std::length_error`,
an access outside a buffer, the use of a field that was never set. -/
inductive Fault where
  | assertion
  | lengthError
  | outOfBounds
  | indeterminate
  deriving DecidableEq, Repr

/-- A computation that succeeds ran its first part to an end. -/
theorem bind_ok {ε α β : Type} {x : Except ε α} {f : α → Except ε β} {b : β} (h : (x >>= f) = .ok b) :
    ∃ a, x = .ok a ∧ f a = .ok b := by
  cases x with
  | error e => cases h
  | ok a => exact ⟨a, rfl, h⟩

/-- The longest `std::string`. -/
def maxSize : Nat := 2 ^ 63 - 1

/-- `std::string(buffer + off, n)` -/
def mkString (buffer : Bytes) (off n : Nat) : Except Fault Bytes :=
  if maxSize < n then .error .lengthError
  else if off + n ≤ buffer.length then .ok (Blocks.slice buffer off n)
  else .error .outOfBounds

theorem mkString_ok {b : Bytes} {off n : Nat} (h : off + n ≤ b.length) (hmax : b.length ≤ maxSize) :
    mkString b off n = .ok (Blocks.slice b off n) := by
  rw [mkString, if_neg (by omega), if_pos h]

/-- The difference of two `size_t`. -/
def sizeSub (a b : Nat) : Nat := if b ≤ a then a - b else a + 2 ^ 64 - b

/-! ## Methods and status codes -/

inductive HttpMethod where
  | delete
  | get
  | head
  | post
  | put
  | connect
  | options
  | trace
  | copy
  | lock
  | mkcol
  | move
  | propfind
  | proppatch
  | search
  | unlock
  | bind
  | rebind
  | unbind
  | acl
  | report
  | mkactivity
  | checkout
  | merge
  | msearch
  | notify
  | subscribe
  | unsubscribe
  | patch
  | purge
  | mkcalendar
  | link
  | unlink
  | source
  | invalidMethod
  deriving DecidableEq, Repr

/-- `HTTP_METHOD_MAP` -/
def httpMethodMap : List (HttpMethod × String) := [
  (.delete, "DELETE"), (.get, "GET"), (.head, "HEAD"), (.post, "POST"), (.put, "PUT"), (.connect, "CONNECT"),
  (.options, "OPTIONS"), (.trace, "TRACE"), (.copy, "COPY"), (.lock, "LOCK"), (.mkcol, "MKCOL"),
  (.move, "MOVE"), (.propfind, "PROPFIND"), (.proppatch, "PROPPATCH"), (.search, "SEARCH"),
  (.unlock, "UNLOCK"), (.bind, "BIND"), (.rebind, "REBIND"), (.unbind, "UNBIND"), (.acl, "ACL"),
  (.report, "REPORT"), (.mkactivity, "MKACTIVITY"), (.checkout, "CHECKOUT"), (.merge, "MERGE"),
  (.msearch, "M-SEARCH"), (.notify, "NOTIFY"), (.subscribe, "SUBSCRIBE"), (.unsubscribe, "UNSUBSCRIBE"),
  (.patch, "PATCH"), (.purge, "PURGE"), (.mkcalendar, "MKCALENDAR"), (.link, "LINK"), (.unlink, "UNLINK"),
  (.source, "SOURCE")]

/-- `(HttpStatus)(atoi(..))` makes a status of any `int`. -/
abbrev HttpStatus := Int

/-- `HTTP_STATUS_MAP` -/
def httpStatusMap : List (HttpStatus × String) := [
  (100, "Continue"), (101, "Switching Protocols"), (102, "Processing"), (200, "OK"), (201, "Created"),
  (202, "Accepted"), (203, "Non-Authoritative Information"), (204, "No Content"), (205, "Reset Content"),
  (206, "Partial Content"), (207, "Multi-Status"), (208, "Already Reported"), (226, "IM Used"),
  (300, "Multiple Choices"), (301, "Moved Permanently"), (302, "Found"), (303, "See Other"),
  (304, "Not Modified"), (305, "Use Proxy"), (307, "Temporary Redirect"), (308, "Permanent Redirect"),
  (400, "Bad Request"), (401, "Unauthorized"), (402, "Payment Required"), (403, "Forbidden"),
  (404, "Not Found"), (405, "Method Not Allowed"), (406, "Not Acceptable"),
  (407, "Proxy Authentication Required"), (408, "Request Timeout"), (409, "Conflict"), (410, "Gone"),
  (411, "Length Required"), (412, "Precondition Failed"), (413, "Payload Too Large"), (414, "URI Too Long"),
  (415, "Unsupported Media Type"), (416, "Range Not Satisfiable"), (417, "Expectation Failed"),
  (421, "Misdirected Request"), (422, "Unprocessable Entity"), (423, "Locked"), (424, "Failed Dependency"),
  (426, "Upgrade Required"), (428, "Precondition Required"), (429, "Too Many Requests"),
  (431, "Request Header Fields Too Large"), (451, "Unavailable For Legal Reasons"),
  (500, "Internal Server Error"), (501, "Not Implemented"), (502, "Bad Gateway"),
  (503, "Service Unavailable"), (504, "Gateway Timeout"), (505, "HTTP Version Not Supported"),
  (506, "Variant Also Negotiates"), (507, "Insufficient Storage"), (508, "Loop Detected"),
  (510, "Not Extended"), (511, "Network Authentication Required")]

def charsToHttpMethod (m : Bytes) : HttpMethod :=
  match httpMethodMap.find? fun e => strncmpEq (ascii e.2) m (ascii e.2).length with
  | some e => e.1
  | none => .invalidMethod

def httpMethodToString (m : HttpMethod) : Bytes :=
  match httpMethodMap.find? fun e => e.1 = m with
  | some e => ascii e.2
  | none => ascii "<unknown>"

/-- What the table of the methods says about their names. -/
theorem httpMethodMap_names :
    ∀ e ∈ httpMethodMap, httpMethodToString e.1 = ascii e.2 ∧ (32 : UInt8) ∉ ascii e.2 ∧
    charsToHttpMethod (ascii e.2 ++ [32]) = e.1 := by decide +kernel

theorem mem_httpMethodMap {m : HttpMethod} (hm : m ≠ .invalidMethod) : ∃ name, (m, name) ∈ httpMethodMap := by
  have hfind : m = .invalidMethod ∨ (httpMethodMap.find? fun e => e.1 = m).isSome = true := by
    cases m <;> first | exact .inl rfl | exact .inr rfl
  obtain ⟨e, he⟩ := Option.isSome_iff_exists.1 (hfind.resolve_left hm)
  obtain rfl : e.1 = m := by simpa using List.find?_some he
  exact ⟨e.2, List.mem_of_find?_eq_some he⟩

theorem charsToHttpMethod_until (u v w : Bytes) :
    charsToHttpMethod (u ++ 32 :: v) = charsToHttpMethod (u ++ 32 :: w) := by
  have hfind : ∀ l : List (HttpMethod × String), (∀ e ∈ l, (32 : UInt8) ∉ ascii e.2) →
      l.find? (fun e => strncmpEq (ascii e.2) (u ++ 32 :: v) (ascii e.2).length) =
        l.find? fun e => strncmpEq (ascii e.2) (u ++ 32 :: w) (ascii e.2).length := by
    intro l hl
    induction l with
    | nil => rfl
    | cons e l ih =>
      obtain ⟨he, hl⟩ := List.forall_mem_cons.1 hl
      rw [List.find?_cons, List.find?_cons, strncmpEq_until he (by decide) u v w, ih hl]
  rw [charsToHttpMethod, charsToHttpMethod, hfind httpMethodMap fun e he => (httpMethodMap_names e he).2.1]

def httpStatusToString (s : HttpStatus) : Bytes :=
  match httpStatusMap.find? fun e => e.1 = s with
  | some e => ascii e.2
  | none => ascii "<unknown>"

/-! ## Header maps -/

def Sorted (es : List (Bytes × Bytes)) : Prop := es.Pairwise fun a b => strcaseLess a.1 b.1 = true

/-- `std::map<std::string, std::string, CaseInsensitiveLess>` -/
structure HeaderMap where
  entries : List (Bytes × Bytes)
  sorted : Sorted entries

namespace HeaderMap

theorem ext {m m' : HeaderMap} (h : m.entries = m'.entries) : m = m' := by
  cases m
  cases m'
  simpa using h

def empty : HeaderMap := ⟨[], List.Pairwise.nil⟩

/-- `m[key] = val`: a key that is there keeps its spelling. -/
def setEntry (key val : Bytes) : List (Bytes × Bytes) → List (Bytes × Bytes)
  | [] => [(key, val)]
  | e :: es =>
    if strcaseLess key e.1 then (key, val) :: e :: es
    else if strcaseLess e.1 key then e :: setEntry key val es
    else (e.1, val) :: es

theorem mem_setEntry {key val : Bytes} {es : List (Bytes × Bytes)} {e : Bytes × Bytes}
    (h : e ∈ setEntry key val es) : e.1 = key ∨ ∃ e' ∈ es, e'.1 = e.1 := by
  induction es with
  | nil =>
    rw [setEntry, List.mem_singleton] at h
    exact .inl (by rw [h])
  | cons d es ih =>
    rw [setEntry] at h
    split at h
    · rcases List.mem_cons.1 h with rfl | h
      · exact .inl rfl
      · exact .inr ⟨e, h, rfl⟩
    · split at h
      · rcases List.mem_cons.1 h with rfl | h
        · exact .inr ⟨e, List.mem_cons_self, rfl⟩
        · rcases ih h with hk | ⟨e', he', hk⟩
          · exact .inl hk
          · exact .inr ⟨e', List.mem_cons_of_mem _ he', hk⟩
      · rcases List.mem_cons.1 h with rfl | h
        · exact .inr ⟨d, List.mem_cons_self, rfl⟩
        · exact .inr ⟨e, List.mem_cons_of_mem _ h, rfl⟩

theorem sorted_setEntry {es : List (Bytes × Bytes)} (h : Sorted es) (key val : Bytes) :
    Sorted (setEntry key val es) := by
  induction es with
  | nil => exact List.pairwise_singleton _ _
  | cons d es ih =>
    obtain ⟨hd, hes⟩ := List.pairwise_cons.1 h
    rw [setEntry]
    split
    · rename_i hlt
      refine List.pairwise_cons.2 ⟨fun e he => ?_, h⟩
      rcases List.mem_cons.1 he with rfl | he
      · exact hlt
      · exact strcaseLess_trans hlt (hd e he)
    · split
      · rename_i hlt
        refine List.pairwise_cons.2 ⟨fun e he => ?_, ih hes⟩
        rcases mem_setEntry he with hk | ⟨e', he', hk⟩
        · rw [hk]
          exact hlt
        · rw [← hk]
          exact hd e' he'
      · exact List.pairwise_cons.2 ⟨fun e he => hd e he, hes⟩

def set (m : HeaderMap) (key val : Bytes) : HeaderMap :=
  ⟨setEntry key val m.entries, sorted_setEntry m.sorted key val⟩

/-- The entries written to a map one after the other. -/
def setAll (m : HeaderMap) (es : List (Bytes × Bytes)) : HeaderMap := es.foldl (fun m e => m.set e.1 e.2) m

/-- No two keys are the same up to case. -/
def Apart (es : List (Bytes × Bytes)) : Prop := es.Pairwise fun a b => strcaseEq a.1 b.1 = false

theorem apart_perm {es es' : List (Bytes × Bytes)} (h : es.Perm es') : Apart es ↔ Apart es' := by
  refine h.pairwise_iff fun {a b} hab => ?_
  rw [strcaseEq, beq_eq_false_iff_ne] at hab ⊢
  exact hab.symm

theorem apart_of_sorted {es : List (Bytes × Bytes)} (h : Sorted es) : Apart es := by
  refine h.imp fun {a b} hab => ?_
  rw [strcaseEq, beq_eq_false_iff_ne]
  rw [strcaseLess, decide_eq_true_eq] at hab
  exact fun he => List.lt_irrefl _ (he ▸ hab)

/-- A key that is not there yet is added. -/
theorem setEntry_perm {key val : Bytes} {es : List (Bytes × Bytes)} (h : ∀ e ∈ es, strcaseEq key e.1 = false) :
    (setEntry key val es).Perm ((key, val) :: es) := by
  induction es with
  | nil => exact List.Perm.refl _
  | cons d es ih =>
    have hne := h d List.mem_cons_self
    rw [strcaseEq, beq_eq_false_iff_ne] at hne
    rw [setEntry]
    by_cases h₁ : strcaseLess key d.1
    · rw [if_pos h₁]
    · by_cases h₂ : strcaseLess d.1 key
      · rw [if_neg h₁, if_pos h₂]
        exact ((ih fun e he => h e (List.mem_cons_of_mem d he)).cons d).trans (List.Perm.swap _ _ _)
      · exact absurd (strcaseEq_of_not_less (Bool.not_eq_true _ ▸ h₁) (Bool.not_eq_true _ ▸ h₂)) hne

theorem setAll_perm {m : HeaderMap} {es : List (Bytes × Bytes)} (h : Apart (es ++ m.entries)) :
    (m.setAll es).entries.Perm (es ++ m.entries) := by
  induction es generalizing m with
  | nil => exact List.Perm.refl _
  | cons d es ih =>
    obtain ⟨hd, -⟩ := List.pairwise_cons.1 h
    have hset : (m.set d.1 d.2).entries.Perm (d :: m.entries) :=
      setEntry_perm fun e he => hd e (List.mem_append_right es he)
    have hperm : (es ++ (m.set d.1 d.2).entries).Perm (d :: es ++ m.entries) :=
      (hset.append_left es).trans List.perm_middle
    exact (ih ((apart_perm hperm).2 h)).trans hperm

/-- A map is determined by what it holds. -/
theorem eq_of_perm {m m' : HeaderMap} (h : m.entries.Perm m'.entries) : m = m' := by
  refine ext (h.eq_of_pairwise (fun a b _ _ hab hba => ?_) m.sorted m'.sorted)
  have hc := strcaseLess_trans hab hba
  rw [strcaseLess_irrefl] at hc
  cases hc

/-- `m.find(key)` -/
def find? (m : HeaderMap) (key : Bytes) : Option Bytes :=
  (m.entries.find? fun e => !strcaseLess e.1 key && !strcaseLess key e.1).map (·.2)

end HeaderMap

/-! ## Messages -/

structure HttpRequest where
  method : HttpMethod
  version : UInt8
  close : Bool
  path : Bytes
  query : Bytes
  fragment : Bytes
  body : Bytes
  headers : HeaderMap

structure HttpResponse where
  status : HttpStatus
  version : UInt8
  close : Bool
  body : Bytes
  reason : Bytes
  headers : HeaderMap

/-- `m_headers` looked up, with the default of the caller. -/
def HeaderMap.get (m : HeaderMap) (key dflt : Bytes) : Bytes := (m.find? key).getD dflt

/-- `getAs`: `cast` is `boost::lexical_cast`, `none` its exception. -/
def HeaderMap.getAs {T : Type} (cast : Bytes → Option T) (m : HeaderMap) (key : Bytes) (dflt : T) : T :=
  match m.find? key with
  | none => dflt
  | some v => (cast v).getD dflt

/-- The header lines of `dump`, without the one for `connection`. -/
def dumpHeaders (sep : Bytes) (m : HeaderMap) : Bytes :=
  m.entries.flatMap fun e => if strcaseEq e.1 (ascii "connection") then [] else e.1 ++ sep ++ e.2 ++
    ascii "\r\n"

def dumpConnection (close : Bool) : Bytes :=
  ascii "connection:" ++ (if close then ascii "close" else ascii "keep-alive") ++ ascii "\r\n"

def dumpBody (body : Bytes) : Bytes :=
  if body ≠ [] then ascii "content-length:" ++ decimal body.length ++ ascii "\r\n\r\n" ++ body else ascii "\r\n"

def dumpVersion (version : UInt8) : Bytes :=
  ascii " HTTP/" ++ decimal (version >>> 4).toNat ++ ascii "." ++ decimal (version &&& 0x0F).toNat

namespace HttpRequest

/-- `HttpRequest()` with its default arguments. -/
def new : HttpRequest where
  method := .get
  version := 0x11
  close := true
  path := ascii "/"
  query := []
  fragment := []
  body := []
  headers := .empty

def getHeader (req : HttpRequest) (key : Bytes) (dflt : Bytes := []) : Bytes := req.headers.get key dflt

def setHeader (req : HttpRequest) (key val : Bytes) : HttpRequest :=
  { req with headers := req.headers.set key val }

def dump (req : HttpRequest) : Bytes :=
  httpMethodToString req.method ++ ascii " " ++ req.path ++
    (if req.query = [] then [] else ascii "?") ++ req.query ++
    (if req.fragment = [] then [] else ascii "#") ++ req.fragment ++ dumpVersion req.version ++ ascii "\r\n" ++
    dumpConnection req.close ++ dumpHeaders (ascii ":") req.headers ++ dumpBody req.body

end HttpRequest

namespace HttpResponse

def new : HttpResponse where
  status := 200
  version := 0x11
  close := true
  body := []
  reason := []
  headers := .empty

def setHeader (rsp : HttpResponse) (key val : Bytes) : HttpResponse :=
  { rsp with headers := rsp.headers.set key val }

def dump (rsp : HttpResponse) : Bytes :=
  dumpVersion rsp.version ++ ascii " " ++
    (if rsp.reason = [] then httpStatusToString rsp.status else rsp.reason) ++ ascii "\r\n" ++
    dumpHeaders (ascii ": ") rsp.headers ++ dumpConnection rsp.close ++ dumpBody rsp.body

end HttpResponse

end Linko.Http
