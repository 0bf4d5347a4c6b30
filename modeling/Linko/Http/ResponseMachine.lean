import Linko.Lib.Ragel
/-!
# The response machine

The state machine that Ragel makes of `httpclient_parser.rl`, read as the one
of the requests. It accepts a response header block or the size line of a
chunk.
-/

namespace Linko.Http.ResponseMachine

open Ragel

inductive Act where
  | mark
  | startField
  | writeField
  | startValue
  | writeContentLen
  | writeConnectionClose
  | writeValue
  | reasonPhrase
  | statusCode
  | httpVersion
  | chunkSize
  | transChunked
  | done
  deriving DecidableEq, Repr

/-! ## Classes of bytes -/

def digit : ByteClass := [(48, 57)]
def xdigit : ByteClass := [(48, 57), (65, 70), (97, 102)]
def space : ByteClass := [(9, 13), (32, 32)]
def token : ByteClass := [(33, 33), (35, 39), (42, 43), (45, 46), (48, 57), (65, 90), (94, 122), (124, 124),
  (126, 126)]
def any : ByteClass := [(0, 255)]

/-! ## The table -/

def on (on : ByteClass) (acts : List Act) (target : Nat) : Edge Act := ⟨on, acts, target, false⟩
def go (on : ByteClass) (target : Nat) : Edge Act := ⟨on, [], target, false⟩

/-- The start state and the size line of a chunk. -/
def chunkRows : List (Nat × List (Edge Act)) := [
  (1, [on (one 'H') [.mark] 8, on xdigit [.mark] 2]),
  (2, [on lf [.chunkSize, .done] 120, on cr [.chunkSize] 3, on (one ';') [.chunkSize] 4, go xdigit 2]),
  (3, [on lf [.done] 120]),
  (4, [on token [.startField] 5]),
  (5, [on lf [.writeField, .startValue, .writeValue, .done] 120,
    on cr [.writeField, .startValue, .writeValue] 3, on (one ';') [.writeField, .startValue, .writeValue] 4,
    on (one '=') [.writeField, .startValue] 6, go token 5]),
  (6, [on token [.startValue] 7]),
  (7, [on lf [.writeValue, .done] 120, on cr [.writeValue] 3, on (one ';') [.writeValue] 4, go token 7])]

/-- The status line and header lines of no special name. -/
def statusRows : List (Nat × List (Edge Act)) := [
  (8, [go (one 'T') 9]),
  (9, [go (one 'T') 10]),
  (10, [go (one 'P') 11]),
  (11, [go (one '/') 12]),
  (12, [go digit 13]),
  (13, [go (one '.') 14, go digit 13]),
  (14, [go digit 15]),
  (15, [on (one ' ') [.httpVersion] 16, go digit 15]),
  (16, [on digit [.mark] 17]),
  (17, [on (one ' ') [.statusCode] 18, go digit 17]),
  (18, [on [(0, 9), (11, 255)] [.mark] 19]),
  (19, [on lf [.reasonPhrase] 20, on cr [.reasonPhrase] 24, go any 19]),
  (20, [on lf [.done] 120, go cr 3, on (either 'C') [.startField] 25, on (either 'T') [.startField] 44,
    on token [.startField] 21]),
  (21, [on (one ':') [.writeField] 22, go token 21]),
  (22, [on lf [.startValue, .writeValue] 20, on cr [.startValue, .writeValue] 24, on space [.startValue] 22,
    on any [.startValue] 23]),
  (23, [on lf [.writeValue] 20, on cr [.writeValue] 24, go any 23]),
  (24, [go lf 20])]

/-- Header lines that begin like a name the grammar knows. -/
def nameRows : List (Nat × List (Edge Act)) := [
  (25, [on (one ':') [.writeField] 22, go (either 'O') 26, go token 21]),
  (26, [on (one ':') [.writeField] 22, go (either 'N') 27, go token 21]),
  (27, [on (one ':') [.writeField] 22, go (either 'N') 28, go (either 'T') 101, go token 21]),
  (28, [on (one ':') [.writeField] 22, go (either 'E') 29, go token 21]),
  (29, [on (one ':') [.writeField] 22, go (either 'C') 30, go token 21]),
  (30, [on (one ':') [.writeField] 22, go (either 'T') 31, go token 21]),
  (31, [on (one ':') [.writeField] 22, go (either 'I') 32, go token 21]),
  (32, [on (one ':') [.writeField] 22, go (either 'O') 33, go token 21]),
  (33, [on (one ':') [.writeField] 22, go (either 'N') 34, go token 21]),
  (34, [on (one ':') [.writeField] 35, go token 21]),
  (35, [on lf [.startValue, .writeValue] 36, on cr [.startValue, .writeValue] 95,
    on (either 'C') [.startValue] 96, on space [.startValue] 35, on any [.startValue] 23]),
  (36, [on lf [.done] 122, go cr 89, on (either 'C') [.startField] 90, on (either 'T') [.startField] 44,
    go space 37, on token [.startField] 21]),
  (37, [go (either 'C') 38, go space 37]),
  (38, [go (either 'L') 39]),
  (39, [go (either 'O') 40]),
  (40, [go (either 'S') 41]),
  (41, [go (either 'E') 42]),
  (42, [go lf 43, go cr 88]),
  (43, [on lf [.writeConnectionClose, .done] 120, on cr [.writeConnectionClose] 3,
    on (either 'C') [.writeConnectionClose, .startField] 25,
    on (either 'T') [.writeConnectionClose, .startField] 44,
    on token [.writeConnectionClose, .startField] 21]),
  (44, [on (one ':') [.writeField] 22, go (either 'R') 45, go token 21]),
  (45, [on (one ':') [.writeField] 22, go (either 'A') 46, go token 21]),
  (46, [on (one ':') [.writeField] 22, go (either 'N') 47, go token 21]),
  (47, [on (one ':') [.writeField] 22, go (either 'S') 48, go token 21]),
  (48, [on (one ':') [.writeField] 22, go (either 'F') 49, go token 21]),
  (49, [on (one ':') [.writeField] 22, go (either 'E') 50, go token 21]),
  (50, [on (one ':') [.writeField] 22, go (either 'R') 51, go token 21]),
  (51, [go (one '-') 52, on (one ':') [.writeField] 22, go token 21]),
  (52, [on (one ':') [.writeField] 22, go (either 'E') 53, go token 21]),
  (53, [on (one ':') [.writeField] 22, go (either 'N') 54, go token 21]),
  (54, [on (one ':') [.writeField] 22, go (either 'C') 55, go token 21]),
  (55, [on (one ':') [.writeField] 22, go (either 'O') 56, go token 21]),
  (56, [on (one ':') [.writeField] 22, go (either 'D') 57, go token 21]),
  (57, [on (one ':') [.writeField] 22, go (either 'I') 58, go token 21]),
  (58, [on (one ':') [.writeField] 22, go (either 'N') 59, go token 21]),
  (59, [on (one ':') [.writeField] 22, go (either 'G') 60, go token 21]),
  (60, [on (one ':') [.writeField] 61, go token 21]),
  (61, [on lf [.startValue, .writeValue] 62, on cr [.startValue, .writeValue] 80,
    on (either 'C') [.startValue] 81, on space [.startValue] 61, on any [.startValue] 23]),
  (62, [on lf [.done] 121, go cr 72, on (either 'C') [.startValue, .startField] 73,
    on (either 'T') [.startField] 44, go space 63, on token [.startField] 21]),
  (63, [on (either 'C') [.startValue] 64, go space 63]),
  (64, [go (either 'H') 65]),
  (65, [go (either 'U') 66]),
  (66, [go (either 'N') 67]),
  (67, [go (either 'K') 68]),
  (68, [go (either 'E') 69]),
  (69, [go (either 'D') 70]),
  (70, [on lf [.writeValue, .transChunked] 20, on cr [.writeValue] 71]),
  (71, [on lf [.transChunked] 20]),
  (72, [on lf [.done] 121, on (either 'C') [.startValue] 64, go space 63]),
  (73, [on (one ':') [.writeField] 22, go (either 'H') 74, go (either 'O') 26, go token 21]),
  (74, [on (one ':') [.writeField] 22, go (either 'U') 75, go token 21]),
  (75, [on (one ':') [.writeField] 22, go (either 'N') 76, go token 21]),
  (76, [on (one ':') [.writeField] 22, go (either 'K') 77, go token 21]),
  (77, [on (one ':') [.writeField] 22, go (either 'E') 78, go token 21]),
  (78, [on (one ':') [.writeField] 22, go (either 'D') 79, go token 21]),
  (79, [on lf [.writeValue, .transChunked] 20, on cr [.writeValue] 71, on (one ':') [.writeField] 22,
    go token 21]),
  (80, [go lf 62, on (either 'C') [.startValue] 64, go space 63]),
  (81, [on lf [.writeValue] 20, on cr [.writeValue] 24, go (either 'H') 82, go any 23]),
  (82, [on lf [.writeValue] 20, on cr [.writeValue] 24, go (either 'U') 83, go any 23]),
  (83, [on lf [.writeValue] 20, on cr [.writeValue] 24, go (either 'N') 84, go any 23]),
  (84, [on lf [.writeValue] 20, on cr [.writeValue] 24, go (either 'K') 85, go any 23]),
  (85, [on lf [.writeValue] 20, on cr [.writeValue] 24, go (either 'E') 86, go any 23]),
  (86, [on lf [.writeValue] 20, on cr [.writeValue] 24, go (either 'D') 87, go any 23]),
  (87, [on lf [.writeValue, .transChunked] 20, on cr [.writeValue] 71, go any 23]),
  (88, [go lf 43]),
  (89, [on lf [.done] 122, go (either 'C') 38, go space 37]),
  (90, [on (one ':') [.writeField] 22, go (either 'L') 91, go (either 'O') 26, go token 21]),
  (91, [on (one ':') [.writeField] 22, go (either 'O') 92, go token 21]),
  (92, [on (one ':') [.writeField] 22, go (either 'S') 93, go token 21]),
  (93, [on (one ':') [.writeField] 22, go (either 'E') 94, go token 21]),
  (94, [go lf 43, go cr 88, on (one ':') [.writeField] 22, go token 21]),
  (95, [go lf 36, go (either 'C') 38, go space 37]),
  (96, [on lf [.writeValue] 20, on cr [.writeValue] 24, go (either 'L') 97, go any 23]),
  (97, [on lf [.writeValue] 20, on cr [.writeValue] 24, go (either 'O') 98, go any 23]),
  (98, [on lf [.writeValue] 20, on cr [.writeValue] 24, go (either 'S') 99, go any 23]),
  (99, [on lf [.writeValue] 20, on cr [.writeValue] 24, go (either 'E') 100, go any 23]),
  (100, [on lf [.writeValue] 43, on cr [.writeValue] 88, go any 23]),
  (101, [on (one ':') [.writeField] 22, go (either 'E') 102, go token 21]),
  (102, [on (one ':') [.writeField] 22, go (either 'N') 103, go token 21]),
  (103, [on (one ':') [.writeField] 22, go (either 'T') 104, go token 21]),
  (104, [go (one '-') 105, on (one ':') [.writeField] 22, go token 21]),
  (105, [on (one ':') [.writeField] 22, go (either 'L') 106, go token 21]),
  (106, [on (one ':') [.writeField] 22, go (either 'E') 107, go token 21]),
  (107, [on (one ':') [.writeField] 22, go (either 'N') 108, go token 21]),
  (108, [on (one ':') [.writeField] 22, go (either 'G') 109, go token 21]),
  (109, [on (one ':') [.writeField] 22, go (either 'T') 110, go token 21]),
  (110, [on (one ':') [.writeField] 22, go (either 'H') 111, go token 21]),
  (111, [on (one ':') [.writeField] 112, go token 21]),
  (112, [on lf [.startValue, .writeValue] 113, on cr [.startValue, .writeValue] 118,
    on space [.startValue] 112, on digit [.startValue] 119, on any [.startValue] 23]),
  (113, [on lf [.done] 123, go cr 116, on (either 'C') [.startField] 25, on (either 'T') [.startField] 44,
    go space 114, on digit [.startValue, .startField] 117, on token [.startField] 21]),
  (114, [go space 114, on digit [.startValue] 115]),
  (115, [on lf [.writeContentLen, .writeValue] 20, on cr [.writeContentLen, .writeValue] 24, go digit 115]),
  (116, [on lf [.done] 123, go space 114, on digit [.startValue] 115]),
  (117, [on lf [.writeContentLen, .writeValue] 20, on cr [.writeContentLen, .writeValue] 24,
    on (one ':') [.writeField] 22, go digit 117, go token 21]),
  (118, [go lf 113, go space 114, on digit [.startValue] 115]),
  (119, [on lf [.writeContentLen, .writeValue] 20, on cr [.writeContentLen, .writeValue] 24, go digit 119,
    go any 23]),
  (120, []),
  (121, [on (either 'C') [.startValue] 64, go space 63]),
  (122, [go (either 'C') 38, go space 37]),
  (123, [go space 114, on digit [.startValue] 115])]

def rows : List (Nat × List (Edge Act)) := chunkRows ++ statusRows ++ nameRows

def start : Nat := 1
def firstFinal : Nat := 120
def error : Nat := 0

def breaks : Act → Bool
  | .done => true
  | _ => false

def machine : Machine Act where
  next := lookup rows false
  breaks := breaks

end Linko.Http.ResponseMachine
