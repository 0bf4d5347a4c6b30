import Linko.Lib.Ragel
/-!
# The request machine

The state machine that Ragel makes of `http11_parser.rl`: one row for each
`case` of the generated `switch`, with the bytes, actions and target of each
of its transitions, of which the first that fits is taken. `rx` is a
transition on the `more_delims`, which exist only when `uri_relaxed` is set.
-/

namespace Linko.Http.RequestMachine

open Ragel

inductive Act where
  | mark
  | startField
  | writeField
  | startValue
  | writeValue
  | requestMethod
  | requestUri
  | fragment
  | startQuery
  | queryString
  | httpVersion
  | requestPath
  | done
  | xml
  | json
  deriving DecidableEq, Repr

/-! ## Classes of bytes -/

def digit : ByteClass := [(48, 57)]
def alpha : ByteClass := [(65, 90), (97, 122)]
def xdigit : ByteClass := [(48, 57), (65, 70), (97, 102)]
def methodChar : ByteClass := [(48, 57), (65, 90)]
def schemeChar : ByteClass := [(43, 43), (45, 46), (48, 57), (65, 90), (97, 122)]
def regChar : ByteClass := [(33, 33), (36, 36), (38, 46), (48, 57), (59, 59), (61, 61), (65, 90), (95, 95),
  (97, 122), (126, 126)]
def userChar : ByteClass := [(33, 33), (36, 36), (38, 46), (48, 59), (61, 61), (65, 90), (95, 95), (97, 122),
  (126, 126)]
def segChar : ByteClass := [(33, 33), (36, 36), (38, 46), (48, 57), (59, 59), (61, 61), (64, 90), (95, 95),
  (97, 122), (126, 126)]
def pchar : ByteClass := [(33, 33), (36, 36), (38, 46), (48, 59), (61, 61), (64, 90), (95, 95), (97, 122),
  (126, 126)]
def pathChar : ByteClass := [(33, 33), (36, 36), (38, 59), (61, 61), (64, 90), (95, 95), (97, 122), (126, 126)]
def queryChar : ByteClass := [(33, 33), (36, 36), (38, 59), (61, 61), (63, 90), (95, 95), (97, 122), (126, 126)]
def token : ByteClass :=
  [(1, 8), (10, 31), (33, 33), (35, 39), (42, 43), (45, 46), (48, 57), (65, 90), (94, 122),
    (124, 124), (126, 126)]
def any : ByteClass := [(0, 255)]
def xmlName : ByteClass := [(45, 46), (48, 57), (65, 90), (97, 122)]
def hexAlpha : ByteClass := [(65, 70), (97, 102)]
def lws : ByteClass := [(9, 9), (32, 32)]
def content : ByteClass := [(1, 126), (128, 255)]
def moreDelims : ByteClass := [(94, 94), (123, 123), (125, 125)]

/-! ## The table -/

def on (on : ByteClass) (acts : List Act) (target : Nat) : Edge Act := ⟨on, acts, target, false⟩
def go (on : ByteClass) (target : Nat) : Edge Act := ⟨on, [], target, false⟩
def rx (acts : List Act) (target : Nat) : Edge Act := ⟨moreDelims, acts, target, true⟩

/-- The request line, without authorities, and the header lines. -/
def requestRows : List (Nat × List (Edge Act)) := [
  (1, [on (one '<') [.mark] 194, on (one '@') [.mark] 198, on methodChar [.mark] 2]),
  (2, [on (one ' ') [.requestMethod] 3, go methodChar 175]),
  (3, [on (one ' ') [.mark, .requestPath, .requestUri] 4,
    on (one '#') [.mark, .requestPath, .requestUri] 20, on (one '%') [.mark] 24, on (one '/') [.mark] 33,
    on (one '?') [.mark, .requestPath] 29,
    on [(33, 33), (36, 36), (38, 46), (48, 57), (59, 59), (61, 61), (64, 64), (95, 95), (126, 126)] [.mark] 19,
    on alpha [.mark] 173, rx [.mark] 19]),
  (4, [on (one 'H') [.mark] 5]),
  (5, [go (one 'T') 6]),
  (6, [go (one 'T') 7]),
  (7, [go (one 'P') 8]),
  (8, [go (one '/') 9]),
  (9, [go (one '1') 10]),
  (10, [go (one '.') 11]),
  (11, [go [(48, 49)] 12]),
  (12, [on lf [.httpVersion] 13, on cr [.httpVersion] 17]),
  (13, [on lf [.startField, .done] 348, on cr [.startField] 18, on token [.startField] 14]),
  (14, [on (one ':') [.writeField] 15, go token 14]),
  (15, [on lf [.startValue, .writeValue] 13, on cr [.startValue, .writeValue] 17, on lws [.startValue] 15,
    on content [.startValue] 16]),
  (16, [on lf [.writeValue] 13, on cr [.writeValue] 17, go content 16]),
  (17, [go lf 13]),
  (18, [on lf [.done] 348, on (one ':') [.writeField] 15, go token 14]),
  (19, [on (one ' ') [.requestPath, .requestUri] 4, on (one '#') [.requestPath, .requestUri] 20,
    go (one '%') 24, go (one '/') 26, on (one '?') [.requestPath] 29, go segChar 19, rx [] 19]),
  (20, [on (one ' ') [.mark, .fragment] 4, on (one '%') [.mark] 22, on queryChar [.mark] 21, rx [.mark] 21]),
  (21, [on (one ' ') [.fragment] 4, go (one '%') 22, go queryChar 21, rx [] 21]),
  (22, [go xdigit 23]),
  (23, [go xdigit 21]),
  (24, [go xdigit 25]),
  (25, [go xdigit 19]),
  (26, [on (one ' ') [.requestPath, .requestUri] 4, on (one '#') [.requestPath, .requestUri] 20,
    go (one '%') 27, on (one '?') [.requestPath] 29, go pathChar 26, rx [] 26]),
  (27, [go xdigit 28]),
  (28, [go xdigit 26]),
  (29, [on (one ' ') [.startQuery, .queryString, .requestUri] 4,
    on (one '#') [.startQuery, .queryString, .requestUri] 20, on (one '%') [.startQuery] 31,
    on queryChar [.startQuery] 30, rx [.startQuery] 30]),
  (30, [on (one ' ') [.queryString, .requestUri] 4, on (one '#') [.queryString, .requestUri] 20,
    go (one '%') 31, go queryChar 30, rx [] 30]),
  (31, [go xdigit 32]),
  (32, [go xdigit 30]),
  (33, [on (one ' ') [.requestPath, .requestUri] 4, on (one '#') [.requestPath, .requestUri] 20,
    go (one '%') 27, go (one '/') 34, on (one '?') [.requestPath] 29, go pchar 26, rx [] 26]),
  (173, [on (one ' ') [.requestPath, .requestUri] 4, on (one '#') [.requestPath, .requestUri] 20,
    go (one '%') 24, go (one '/') 26, go (one ':') 174, on (one '?') [.requestPath] 29,
    go [(33, 33), (36, 36), (38, 42), (44, 44), (59, 59), (61, 61), (64, 64), (95, 95), (126, 126)] 19,
    go schemeChar 173, rx [] 19]),
  (174, [on (one ' ') [.mark, .requestPath, .requestUri] 4,
    on (one '#') [.mark, .requestPath, .requestUri] 20, on (one '%') [.mark] 27, on (one '/') [.mark] 33,
    on (one '?') [.mark, .requestPath] 29, on pchar [.mark] 26, rx [.mark] 26]),
  (175, [on (one ' ') [.requestMethod] 3, go methodChar 176]),
  (176, [on (one ' ') [.requestMethod] 3, go methodChar 177]),
  (177, [on (one ' ') [.requestMethod] 3, go methodChar 178]),
  (178, [on (one ' ') [.requestMethod] 3, go methodChar 179]),
  (179, [on (one ' ') [.requestMethod] 3, go methodChar 180]),
  (180, [on (one ' ') [.requestMethod] 3, go methodChar 181]),
  (181, [on (one ' ') [.requestMethod] 3, go methodChar 182]),
  (182, [on (one ' ') [.requestMethod] 3, go methodChar 183]),
  (183, [on (one ' ') [.requestMethod] 3, go methodChar 184]),
  (184, [on (one ' ') [.requestMethod] 3, go methodChar 185]),
  (185, [on (one ' ') [.requestMethod] 3, go methodChar 186]),
  (186, [on (one ' ') [.requestMethod] 3, go methodChar 187]),
  (187, [on (one ' ') [.requestMethod] 3, go methodChar 188]),
  (188, [on (one ' ') [.requestMethod] 3, go methodChar 189]),
  (189, [on (one ' ') [.requestMethod] 3, go methodChar 190]),
  (190, [on (one ' ') [.requestMethod] 3, go methodChar 191]),
  (191, [on (one ' ') [.requestMethod] 3, go methodChar 192]),
  (192, [on (one ' ') [.requestMethod] 3, go methodChar 193]),
  (193, [on (one ' ') [.requestMethod] 3]),
  (348, [on (one ':') [.writeField] 15, go token 14])]

/-- The authority of a URI: user, host, IP literals and port. -/
def authorityRows : List (Nat × List (Edge Act)) := [
  (34, [on (one ' ') [.requestPath, .requestUri] 4, on (one '#') [.requestPath, .requestUri] 20,
    go (one '%') 36, go (one '/') 26, go (one ':') 38, on (one '?') [.requestPath] 29, go (one '@') 42,
    go (one '[') 47, go regChar 35, rx [] 35]),
  (35, [on (one ' ') [.requestPath, .requestUri] 4, on (one '#') [.requestPath, .requestUri] 20,
    go (one '%') 36, go (one '/') 26, go (one ':') 38, on (one '?') [.requestPath] 29, go (one '@') 42,
    go regChar 35, rx [] 35]),
  (36, [go xdigit 37]),
  (37, [go xdigit 35]),
  (38, [on (one ' ') [.requestPath, .requestUri] 4, on (one '#') [.requestPath, .requestUri] 20,
    go (one '%') 40, go (one '/') 26, on (one '?') [.requestPath] 29, go (one '@') 42, go digit 38,
    go userChar 39, rx [] 39]),
  (39, [go (one '%') 40, go (one '@') 42, go userChar 39, rx [] 39]),
  (40, [go xdigit 41]),
  (41, [go xdigit 39]),
  (42, [on (one ' ') [.requestPath, .requestUri] 4, on (one '#') [.requestPath, .requestUri] 20,
    go (one '%') 44, go (one '/') 26, go (one ':') 46, on (one '?') [.requestPath] 29, go (one '[') 47,
    go regChar 43, rx [] 43]),
  (43, [on (one ' ') [.requestPath, .requestUri] 4, on (one '#') [.requestPath, .requestUri] 20,
    go (one '%') 44, go (one '/') 26, go (one ':') 46, on (one '?') [.requestPath] 29, go regChar 43,
    rx [] 43]),
  (44, [go xdigit 45]),
  (45, [go xdigit 43]),
  (46, [on (one ' ') [.requestPath, .requestUri] 4, on (one '#') [.requestPath, .requestUri] 20,
    go (one '/') 26, on (one '?') [.requestPath] 29, go digit 46]),
  (47, [go [(6, 6)] 48, go (one ':') 167, go (one 'v') 169, go xdigit 91]),
  (48, [go xdigit 49]),
  (49, [go (one ':') 53, go xdigit 50]),
  (50, [go (one ':') 53, go xdigit 51]),
  (51, [go (one ':') 53, go xdigit 52]),
  (52, [go (one ':') 53]),
  (53, [go (one '1') 84, go (one '2') 87, go digit 54, go hexAlpha 90]),
  (54, [go (one '.') 55, go (one ':') 80, go xdigit 77]),
  (55, [go (one '1') 72, go (one '2') 74, go digit 56]),
  (56, [go (one '.') 57]),
  (57, [go (one '1') 67, go (one '2') 69, go digit 58]),
  (58, [go (one '.') 59]),
  (59, [go (one '1') 62, go (one '2') 64, go digit 60]),
  (60, [go (one ']') 61]),
  (61, [on (one ' ') [.requestPath, .requestUri] 4, on (one '#') [.requestPath, .requestUri] 20,
    go (one '/') 26, go (one ':') 46, on (one '?') [.requestPath] 29]),
  (62, [go (one ']') 61, go digit 63]),
  (63, [go (one ']') 61, go digit 60]),
  (64, [go (one '0') 65, go (one '5') 66, go (one ']') 61]),
  (65, [go digit 60]),
  (66, [go (one '0') 60]),
  (67, [go (one '.') 59, go digit 68]),
  (68, [go (one '.') 59, go digit 58]),
  (69, [go (one '.') 59, go (one '0') 70, go (one '5') 71]),
  (70, [go digit 58]),
  (71, [go (one '0') 58]),
  (72, [go (one '.') 57, go digit 73]),
  (73, [go (one '.') 57, go digit 56]),
  (74, [go (one '.') 57, go (one '0') 75, go (one '5') 76]),
  (75, [go digit 56]),
  (76, [go (one '0') 56]),
  (77, [go (one ':') 80, go xdigit 78]),
  (78, [go (one ':') 80, go xdigit 79]),
  (79, [go (one ':') 80]),
  (80, [go xdigit 81]),
  (81, [go (one ']') 61, go xdigit 82]),
  (82, [go (one ']') 61, go xdigit 83]),
  (83, [go (one ']') 61, go xdigit 60]),
  (84, [go (one '.') 55, go (one ':') 80, go digit 85, go hexAlpha 77]),
  (85, [go (one '.') 55, go (one ':') 80, go digit 86, go hexAlpha 78]),
  (86, [go (one '.') 55, go (one ':') 80, go xdigit 79]),
  (87, [go (one '.') 55, go (one '0') 88, go (one '5') 89, go (one ':') 80, go xdigit 77]),
  (88, [go (one ':') 80, go digit 86, go hexAlpha 78]),
  (89, [go (one '0') 86, go (one ':') 80, go xdigit 78]),
  (90, [go (one ':') 80, go xdigit 77]),
  (91, [go (one ':') 95, go xdigit 92]),
  (92, [go (one ':') 95, go xdigit 93]),
  (93, [go (one ':') 95, go xdigit 94]),
  (94, [go (one ':') 95]),
  (95, [go (one ':') 166, go xdigit 96]),
  (96, [go (one ':') 100, go xdigit 97]),
  (97, [go (one ':') 100, go xdigit 98]),
  (98, [go (one ':') 100, go xdigit 99]),
  (99, [go (one ':') 100]),
  (100, [go (one ':') 165, go xdigit 101]),
  (101, [go (one ':') 105, go xdigit 102]),
  (102, [go (one ':') 105, go xdigit 103]),
  (103, [go (one ':') 105, go xdigit 104]),
  (104, [go (one ':') 105]),
  (105, [go (one ':') 164, go xdigit 106]),
  (106, [go (one ':') 110, go xdigit 107]),
  (107, [go (one ':') 110, go xdigit 108]),
  (108, [go (one ':') 110, go xdigit 109]),
  (109, [go (one ':') 110]),
  (110, [go (one ':') 163, go xdigit 111]),
  (111, [go (one ':') 115, go xdigit 112]),
  (112, [go (one ':') 115, go xdigit 113]),
  (113, [go (one ':') 115, go xdigit 114]),
  (114, [go (one ':') 115]),
  (115, [go (one ':') 151, go xdigit 116]),
  (116, [go (one ':') 120, go xdigit 117]),
  (117, [go (one ':') 120, go xdigit 118]),
  (118, [go (one ':') 120, go xdigit 119]),
  (119, [go (one ':') 120]),
  (120, [go (one ':') 150, go xdigit 121]),
  (121, [go (one ':') 125, go xdigit 122]),
  (122, [go (one ':') 125, go xdigit 123]),
  (123, [go (one ':') 125, go xdigit 124]),
  (124, [go (one ':') 125]),
  (125, [go (one ':') 126, go xdigit 121]),
  (126, [go (one '1') 143, go (one '2') 146, go (one ']') 61, go [(2, 3)] 48, go digit 127, go hexAlpha 149]),
  (127, [go (one '.') 55, go (one ':') 131, go (one ']') 61, go xdigit 128]),
  (128, [go (one ':') 131, go (one ']') 61, go xdigit 129]),
  (129, [go (one ':') 131, go (one ']') 61, go xdigit 130]),
  (130, [go (one ':') 131, go (one ']') 61]),
  (131, [go (one '1') 136, go (one '2') 139, go digit 132, go hexAlpha 142]),
  (132, [go (one '.') 55, go (one ':') 80, go (one ']') 61, go xdigit 133]),
  (133, [go (one ':') 80, go (one ']') 61, go xdigit 134]),
  (134, [go (one ':') 80, go (one ']') 61, go xdigit 135]),
  (135, [go (one ':') 80, go (one ']') 61]),
  (136, [go (one '.') 55, go (one ':') 80, go (one ']') 61, go digit 137, go hexAlpha 133]),
  (137, [go (one '.') 55, go (one ':') 80, go (one ']') 61, go digit 138, go hexAlpha 134]),
  (138, [go (one '.') 55, go (one ':') 80, go (one ']') 61, go xdigit 135]),
  (139, [go (one '.') 55, go (one '0') 140, go (one '5') 141, go (one ':') 80, go (one ']') 61,
    go xdigit 133]),
  (140, [go (one ':') 80, go (one ']') 61, go digit 138, go hexAlpha 134]),
  (141, [go (one '0') 138, go (one ':') 80, go (one ']') 61, go xdigit 134]),
  (142, [go (one ':') 80, go (one ']') 61, go xdigit 133]),
  (143, [go (one '.') 55, go (one ':') 131, go (one ']') 61, go digit 144, go hexAlpha 128]),
  (144, [go (one '.') 55, go (one ':') 131, go (one ']') 61, go digit 145, go hexAlpha 129]),
  (145, [go (one '.') 55, go (one ':') 131, go (one ']') 61, go xdigit 130]),
  (146, [go (one '.') 55, go (one '0') 147, go (one '5') 148, go (one ':') 131, go (one ']') 61,
    go xdigit 128]),
  (147, [go (one ':') 131, go (one ']') 61, go digit 145, go hexAlpha 129]),
  (148, [go (one '0') 145, go (one ':') 131, go (one ']') 61, go xdigit 129]),
  (149, [go (one ':') 131, go (one ']') 61, go xdigit 128]),
  (150, [go (one '1') 143, go (one '2') 146, go [(2, 3)] 48, go digit 127, go hexAlpha 149]),
  (151, [go (one '1') 156, go (one '2') 159, go [(2, 3)] 48, go digit 152, go hexAlpha 162]),
  (152, [go (one '.') 55, go (one ':') 131, go xdigit 153]),
  (153, [go (one ':') 131, go xdigit 154]),
  (154, [go (one ':') 131, go xdigit 155]),
  (155, [go (one ':') 131]),
  (156, [go (one '.') 55, go (one ':') 131, go digit 157, go hexAlpha 153]),
  (157, [go (one '.') 55, go (one ':') 131, go digit 158, go hexAlpha 154]),
  (158, [go (one '.') 55, go (one ':') 131, go xdigit 155]),
  (159, [go (one '.') 55, go (one '0') 160, go (one '5') 161, go (one ':') 131, go xdigit 153]),
  (160, [go (one ':') 131, go digit 158, go hexAlpha 154]),
  (161, [go (one '0') 158, go (one ':') 131, go xdigit 154]),
  (162, [go (one ':') 131, go xdigit 153]),
  (163, [go [(2, 3)] 48, go xdigit 49]),
  (164, [go [(2, 3)] 48]),
  (165, [go [(3, 3)] 48]),
  (166, [go [(4, 4)] 48]),
  (167, [go (one ':') 168]),
  (168, [go (one '1') 143, go (one '2') 146, go (one ']') 61, go [(2, 5)] 48, go digit 127, go hexAlpha 149]),
  (169, [go xdigit 170]),
  (170, [go (one '.') 171, go xdigit 170]),
  (171, [go userChar 172, rx [] 172]),
  (172, [go (one ']') 61, go userChar 172, rx [] 172])]

/-- The XML and JSON messages of a bare socket. -/
def socketRows : List (Nat × List (Edge Act)) := [
  (194, [go xmlName 195]),
  (195, [on [(9, 13), (32, 32), (47, 47), (62, 62)] [.requestPath] 196, go xmlName 195]),
  (196, [go (one '>') 197, go any 196]),
  (197, [on nul [.xml, .done] 349, go (one '>') 197, go any 196]),
  (198, [on (one ' ') [.requestPath] 199, go (one '%') 203, go (one '/') 208, go segChar 202, rx [] 202]),
  (199, [on (one '{') [.mark] 200]),
  (200, [go (one '}') 201, go any 200]),
  (201, [on nul [.json, .done] 349, go (one '}') 201, go any 200]),
  (202, [on (one ' ') [.requestPath] 199, go (one '%') 203, go (one '/') 205, go segChar 202, rx [] 202]),
  (203, [go xdigit 204]),
  (204, [go xdigit 202]),
  (205, [on (one ' ') [.requestPath] 199, go (one '%') 206, go pathChar 205, rx [] 205]),
  (206, [go xdigit 207]),
  (207, [go xdigit 205]),
  (208, [on (one ' ') [.requestPath] 199, go (one '%') 206, go (one '/') 209, go pchar 205, rx [] 205]),
  (209, [on (one ' ') [.requestPath] 199, go (one '%') 211, go (one '/') 205, go (one ':') 213,
    go (one '@') 217, go (one '[') 222, go regChar 210, rx [] 210]),
  (210, [on (one ' ') [.requestPath] 199, go (one '%') 211, go (one '/') 205, go (one ':') 213,
    go (one '@') 217, go regChar 210, rx [] 210]),
  (211, [go xdigit 212]),
  (212, [go xdigit 210]),
  (213, [on (one ' ') [.requestPath] 199, go (one '%') 215, go (one '/') 205, go (one '@') 217,
    go digit 213, go userChar 214, rx [] 214]),
  (214, [go (one '%') 215, go (one '@') 217, go userChar 214, rx [] 214]),
  (215, [go xdigit 216]),
  (216, [go xdigit 214]),
  (217, [on (one ' ') [.requestPath] 199, go (one '%') 219, go (one '/') 205, go (one ':') 221,
    go (one '[') 222, go regChar 218, rx [] 218]),
  (218, [on (one ' ') [.requestPath] 199, go (one '%') 219, go (one '/') 205, go (one ':') 221,
    go regChar 218, rx [] 218]),
  (219, [go xdigit 220]),
  (220, [go xdigit 218]),
  (221, [on (one ' ') [.requestPath] 199, go (one '/') 205, go digit 221]),
  (222, [go [(6, 6)] 223, go (one ':') 342, go (one 'v') 344, go xdigit 266]),
  (223, [go xdigit 224]),
  (224, [go (one ':') 228, go xdigit 225]),
  (225, [go (one ':') 228, go xdigit 226]),
  (226, [go (one ':') 228, go xdigit 227]),
  (227, [go (one ':') 228]),
  (228, [go (one '1') 259, go (one '2') 262, go digit 229, go hexAlpha 265]),
  (229, [go (one '.') 230, go (one ':') 255, go xdigit 252]),
  (230, [go (one '1') 247, go (one '2') 249, go digit 231]),
  (231, [go (one '.') 232]),
  (232, [go (one '1') 242, go (one '2') 244, go digit 233]),
  (233, [go (one '.') 234]),
  (234, [go (one '1') 237, go (one '2') 239, go digit 235]),
  (235, [go (one ']') 236]),
  (236, [on (one ' ') [.requestPath] 199, go (one '/') 205, go (one ':') 221]),
  (237, [go (one ']') 236, go digit 238]),
  (238, [go (one ']') 236, go digit 235]),
  (239, [go (one '0') 240, go (one '5') 241, go (one ']') 236]),
  (240, [go digit 235]),
  (241, [go (one '0') 235]),
  (242, [go (one '.') 234, go digit 243]),
  (243, [go (one '.') 234, go digit 233]),
  (244, [go (one '.') 234, go (one '0') 245, go (one '5') 246]),
  (245, [go digit 233]),
  (246, [go (one '0') 233]),
  (247, [go (one '.') 232, go digit 248]),
  (248, [go (one '.') 232, go digit 231]),
  (249, [go (one '.') 232, go (one '0') 250, go (one '5') 251]),
  (250, [go digit 231]),
  (251, [go (one '0') 231]),
  (252, [go (one ':') 255, go xdigit 253]),
  (253, [go (one ':') 255, go xdigit 254]),
  (254, [go (one ':') 255]),
  (255, [go xdigit 256]),
  (256, [go (one ']') 236, go xdigit 257]),
  (257, [go (one ']') 236, go xdigit 258]),
  (258, [go (one ']') 236, go xdigit 235]),
  (259, [go (one '.') 230, go (one ':') 255, go digit 260, go hexAlpha 252]),
  (260, [go (one '.') 230, go (one ':') 255, go digit 261, go hexAlpha 253]),
  (261, [go (one '.') 230, go (one ':') 255, go xdigit 254]),
  (262, [go (one '.') 230, go (one '0') 263, go (one '5') 264, go (one ':') 255, go xdigit 252]),
  (263, [go (one ':') 255, go digit 261, go hexAlpha 253]),
  (264, [go (one '0') 261, go (one ':') 255, go xdigit 253]),
  (265, [go (one ':') 255, go xdigit 252]),
  (266, [go (one ':') 270, go xdigit 267]),
  (267, [go (one ':') 270, go xdigit 268]),
  (268, [go (one ':') 270, go xdigit 269]),
  (269, [go (one ':') 270]),
  (270, [go (one ':') 341, go xdigit 271]),
  (271, [go (one ':') 275, go xdigit 272]),
  (272, [go (one ':') 275, go xdigit 273]),
  (273, [go (one ':') 275, go xdigit 274]),
  (274, [go (one ':') 275]),
  (275, [go (one ':') 340, go xdigit 276]),
  (276, [go (one ':') 280, go xdigit 277]),
  (277, [go (one ':') 280, go xdigit 278]),
  (278, [go (one ':') 280, go xdigit 279]),
  (279, [go (one ':') 280]),
  (280, [go (one ':') 339, go xdigit 281]),
  (281, [go (one ':') 285, go xdigit 282]),
  (282, [go (one ':') 285, go xdigit 283]),
  (283, [go (one ':') 285, go xdigit 284]),
  (284, [go (one ':') 285]),
  (285, [go (one ':') 338, go xdigit 286]),
  (286, [go (one ':') 290, go xdigit 287]),
  (287, [go (one ':') 290, go xdigit 288]),
  (288, [go (one ':') 290, go xdigit 289]),
  (289, [go (one ':') 290]),
  (290, [go (one ':') 326, go xdigit 291]),
  (291, [go (one ':') 295, go xdigit 292]),
  (292, [go (one ':') 295, go xdigit 293]),
  (293, [go (one ':') 295, go xdigit 294]),
  (294, [go (one ':') 295]),
  (295, [go (one ':') 325, go xdigit 296]),
  (296, [go (one ':') 300, go xdigit 297]),
  (297, [go (one ':') 300, go xdigit 298]),
  (298, [go (one ':') 300, go xdigit 299]),
  (299, [go (one ':') 300]),
  (300, [go (one ':') 301, go xdigit 296]),
  (301, [go (one '1') 318, go (one '2') 321, go (one ']') 236, go [(2, 3)] 223, go digit 302,
    go hexAlpha 324]),
  (302, [go (one '.') 230, go (one ':') 306, go (one ']') 236, go xdigit 303]),
  (303, [go (one ':') 306, go (one ']') 236, go xdigit 304]),
  (304, [go (one ':') 306, go (one ']') 236, go xdigit 305]),
  (305, [go (one ':') 306, go (one ']') 236]),
  (306, [go (one '1') 311, go (one '2') 314, go digit 307, go hexAlpha 317]),
  (307, [go (one '.') 230, go (one ':') 255, go (one ']') 236, go xdigit 308]),
  (308, [go (one ':') 255, go (one ']') 236, go xdigit 309]),
  (309, [go (one ':') 255, go (one ']') 236, go xdigit 310]),
  (310, [go (one ':') 255, go (one ']') 236]),
  (311, [go (one '.') 230, go (one ':') 255, go (one ']') 236, go digit 312, go hexAlpha 308]),
  (312, [go (one '.') 230, go (one ':') 255, go (one ']') 236, go digit 313, go hexAlpha 309]),
  (313, [go (one '.') 230, go (one ':') 255, go (one ']') 236, go xdigit 310]),
  (314, [go (one '.') 230, go (one '0') 315, go (one '5') 316, go (one ':') 255, go (one ']') 236,
    go xdigit 308]),
  (315, [go (one ':') 255, go (one ']') 236, go digit 313, go hexAlpha 309]),
  (316, [go (one '0') 313, go (one ':') 255, go (one ']') 236, go xdigit 309]),
  (317, [go (one ':') 255, go (one ']') 236, go xdigit 308]),
  (318, [go (one '.') 230, go (one ':') 306, go (one ']') 236, go digit 319, go hexAlpha 303]),
  (319, [go (one '.') 230, go (one ':') 306, go (one ']') 236, go digit 320, go hexAlpha 304]),
  (320, [go (one '.') 230, go (one ':') 306, go (one ']') 236, go xdigit 305]),
  (321, [go (one '.') 230, go (one '0') 322, go (one '5') 323, go (one ':') 306, go (one ']') 236,
    go xdigit 303]),
  (322, [go (one ':') 306, go (one ']') 236, go digit 320, go hexAlpha 304]),
  (323, [go (one '0') 320, go (one ':') 306, go (one ']') 236, go xdigit 304]),
  (324, [go (one ':') 306, go (one ']') 236, go xdigit 303]),
  (325, [go (one '1') 318, go (one '2') 321, go [(2, 3)] 223, go digit 302, go hexAlpha 324]),
  (326, [go (one '1') 331, go (one '2') 334, go [(2, 3)] 223, go digit 327, go hexAlpha 337]),
  (327, [go (one '.') 230, go (one ':') 306, go xdigit 328]),
  (328, [go (one ':') 306, go xdigit 329]),
  (329, [go (one ':') 306, go xdigit 330]),
  (330, [go (one ':') 306]),
  (331, [go (one '.') 230, go (one ':') 306, go digit 332, go hexAlpha 328]),
  (332, [go (one '.') 230, go (one ':') 306, go digit 333, go hexAlpha 329]),
  (333, [go (one '.') 230, go (one ':') 306, go xdigit 330]),
  (334, [go (one '.') 230, go (one '0') 335, go (one '5') 336, go (one ':') 306, go xdigit 328]),
  (335, [go (one ':') 306, go digit 333, go hexAlpha 329]),
  (336, [go (one '0') 333, go (one ':') 306, go xdigit 329]),
  (337, [go (one ':') 306, go xdigit 328]),
  (338, [go [(2, 3)] 223, go xdigit 224]),
  (339, [go [(2, 3)] 223]),
  (340, [go [(3, 3)] 223]),
  (341, [go [(4, 4)] 223]),
  (342, [go (one ':') 343]),
  (343, [go (one '1') 318, go (one '2') 321, go (one ']') 236, go [(2, 5)] 223, go digit 302,
    go hexAlpha 324]),
  (344, [go xdigit 345]),
  (345, [go (one '.') 346, go xdigit 345]),
  (346, [go userChar 347, rx [] 347]),
  (347, [go (one ']') 236, go userChar 347, rx [] 347]),
  (349, [])]

def rows : List (Nat × List (Edge Act)) := requestRows ++ authorityRows ++ socketRows

def start : Nat := 1
def firstFinal : Nat := 348
def error : Nat := 0

def breaks : Act → Bool
  | .done => true
  | _ => false

def machine (uriRelaxed : Bool) : Machine Act where
  next := lookup rows uriRelaxed
  breaks := breaks

end Linko.Http.RequestMachine
