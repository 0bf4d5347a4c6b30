import Linko.Lib.Ragel
/-!
# The machine of `uri.rl`

The machine `uri_parser` that Ragel makes of the grammar: one row for each
`case` of the generated `switch`, with the bytes, actions and target of each
of its transitions, of which the first that fits is taken. `char` is signed
there; the bytes from 128 on are its negative values.
-/

namespace Linko.UriParser

open Ragel

inductive Act where
  | marku
  | markh
  | saveScheme
  | savePort
  | saveUserinfo
  | saveHost
  | savePath
  | saveQuery
  | saveFragment
  deriving DecidableEq, Repr

/-! ## Classes of bytes -/

def digit : ByteClass := [(48, 57)]
def alpha : ByteClass := [(65, 90), (97, 122)]
def xdigit : ByteClass := [(48, 57), (65, 70), (97, 102)]
def schemeChar : ByteClass := [(43, 43), (45, 46), (48, 57), (65, 90), (97, 122)]
def regChar : ByteClass := [(33, 33), (36, 36), (38, 46), (48, 57), (59, 59), (61, 61), (65, 90), (95, 95),
  (97, 122), (126, 126)]
def userChar : ByteClass := [(33, 33), (36, 36), (38, 46), (48, 59), (61, 61), (65, 90), (95, 95), (97, 122),
  (126, 126)]
def pchar : ByteClass := [(33, 33), (36, 36), (38, 46), (48, 59), (61, 61), (64, 90), (95, 95), (97, 122),
  (126, 126), (128, 255)]
def pathChar : ByteClass := [(33, 33), (36, 36), (38, 59), (61, 61), (64, 90), (95, 95), (97, 122),
  (126, 126), (128, 255)]
def queryChar : ByteClass := [(33, 33), (36, 36), (38, 59), (61, 61), (63, 90), (95, 95), (97, 122),
  (126, 126), (128, 255)]
def segChar : ByteClass := [(33, 33), (36, 36), (38, 46), (48, 57), (59, 59), (61, 61), (64, 90), (95, 95),
  (97, 122), (126, 126), (128, 255)]

/-! ## The table -/

def on (on : ByteClass) (acts : List Act) (target : Nat) : Edge Act := ⟨on, acts, target, false⟩
def go (on : ByteClass) (target : Nat) : Edge Act := ⟨on, [], target, false⟩

/-- The transitions behind an authority with a scheme, `path_abempty` and what
follows it. -/
def pathAfter (acts : List Act) : List (Edge Act) :=
  [on (one '#') (acts ++ [.savePath]) 453, on (one '/') acts 513, on (one '?') (acts ++ [.savePath]) 456]

/-- The transitions behind the authority of a relative reference. -/
def relativeAfter (acts : List Act) : List (Edge Act) :=
  [on (one '#') acts 453, on (one '/') acts 455, on (one '?') acts 456]

/-- The URIs with an authority, without the `IP_literal`. -/
def uriRows : List (Nat × List (Edge Act)) := [
  (1, [go xdigit 2]),
  (2, [go xdigit 454]),
  (7, [go xdigit 8]),
  (8, [go xdigit 457]),
  (229, [go [(48, 52)] 230]),
  (230, [go digit 231]),
  (231, [go (one '.') 232]),
  (232, [go [(2, 2)] 233, go (one '0') 235, go (one '1') 249, go (one '2') 251, go digit 250]),
  (233, [go [(48, 52)] 234]),
  (234, [go digit 235]),
  (235, [go (one '.') 236]),
  (236, [go [(2, 2)] 237, go (one '0') 239, go (one '1') 245, go (one '2') 247, go digit 246]),
  (237, [go [(48, 52)] 238]),
  (238, [go digit 239]),
  (239, [go (one '.') 240]),
  (240, [go [(2, 2)] 241, go (one '0') 512, go (one '1') 516, go (one '2') 518, go digit 517]),
  (241, [go [(48, 52)] 242]),
  (242, [go digit 512]),
  (243, [go xdigit 244]),
  (244, [go xdigit 513]),
  (245, [go (one '.') 240, go digit 246]),
  (246, [go (one '.') 240, go digit 239]),
  (247, [go (one '.') 240, go (one '5') 248, go digit 239]),
  (248, [go (one '.') 240, go [(48, 53)] 239]),
  (249, [go (one '.') 236, go digit 250]),
  (250, [go (one '.') 236, go digit 235]),
  (251, [go (one '.') 236, go (one '5') 252, go digit 235]),
  (252, [go (one '.') 236, go [(48, 53)] 235]),
  (253, [go xdigit 254]),
  (254, [go xdigit 520]),
  (255, [go (one '%') 256, on (one '@') [.saveUserinfo] 522, go userChar 255]),
  (256, [go xdigit 257]),
  (257, [go xdigit 255]),
  (258, [go xdigit 259]),
  (259, [go xdigit 523]),
  (451, [go (one '#') 453, go (one '%') 3, go (one '/') 458, go (one '?') 456, on alpha [.marku] 508,
    go segChar 452]),
  (453, [on (one '%') [.marku] 1, on queryChar [.marku] 454]),
  (454, [go (one '%') 1, go queryChar 454]),
  (456, [on (one '#') [.marku, .saveQuery] 453, on (one '%') [.marku] 7, on queryChar [.marku] 457]),
  (457, [on (one '#') [.saveQuery] 453, go (one '%') 7, go queryChar 457]),
  (508, [go (one '#') 453, go (one '%') 3, go (one '/') 455, on (one ':') [.saveScheme] 509,
    go (one '?') 456, go schemeChar 508, go segChar 452]),
  (509, [go (one '#') 453, go (one '%') 5, go (one '/') 510, go (one '?') 456, go pchar 455]),
  (510, [go (one '#') 453, go (one '%') 5, go (one '/') 511, go (one '?') 456, go pchar 455]),
  (511, pathAfter [.markh, .saveHost] ++ [on [(2, 2)] [.markh] 229, on (one '%') [.markh] 253,
    on (one '0') [.markh] 543, on (one '1') [.markh] 557, on (one '2') [.markh] 559,
    on (one ':') [.markh, .saveHost] 521, on (one '@') [.markh, .saveUserinfo] 522,
    on (one '[') [.markh] 260, on digit [.markh] 558, on regChar [.markh] 520]),
  (512, pathAfter [.saveHost, .markh] ++ [on (one ':') [.saveHost] 514]),
  (513, [on (one '#') [.savePath] 453, go (one '%') 243, on (one '?') [.savePath] 456, go pathChar 513]),
  (514, pathAfter [.markh, .savePort] ++ [on digit [.markh] 515]),
  (515, pathAfter [.savePort, .markh] ++ [go digit 515]),
  (516, pathAfter [.saveHost, .markh] ++ [on (one ':') [.saveHost] 514, go digit 517]),
  (517, pathAfter [.saveHost, .markh] ++ [on (one ':') [.saveHost] 514, go digit 512]),
  (518, pathAfter [.saveHost, .markh] ++ [go (one '5') 519, on (one ':') [.saveHost] 514, go digit 512]),
  (519, pathAfter [.saveHost, .markh] ++ [on (one ':') [.saveHost] 514, go [(48, 53)] 512]),
  (520, pathAfter [.saveHost, .markh] ++ [go (one '%') 253, on (one ':') [.saveHost] 521,
    on (one '@') [.saveUserinfo] 522, go regChar 520]),
  (521, pathAfter [.markh, .savePort] ++ [go (one '%') 256, on (one '@') [.saveUserinfo] 522,
    on digit [.markh] 542, go userChar 255]),
  (522, pathAfter [.markh, .saveHost] ++ [on [(2, 2)] [.markh] 229, on (one '%') [.markh] 258,
    on (one '0') [.markh] 524, on (one '1') [.markh] 538, on (one '2') [.markh] 540,
    on (one ':') [.markh, .saveHost] 514, on (one '[') [.markh] 260, on digit [.markh] 539,
    on regChar [.markh] 523]),
  (523, pathAfter [.saveHost, .markh] ++ [go (one '%') 258, on (one ':') [.saveHost] 514, go regChar 523]),
  (524, pathAfter [.saveHost, .markh] ++ [go (one '%') 258, go (one '.') 525, on (one ':') [.saveHost] 514,
    go regChar 523]),
  (525, pathAfter [.saveHost, .markh] ++ [go [(2, 2)] 233, go (one '%') 258, go (one '0') 526,
    go (one '1') 534, go (one '2') 536, on (one ':') [.saveHost] 514, go digit 535, go regChar 523]),
  (526, pathAfter [.saveHost, .markh] ++ [go (one '%') 258, go (one '.') 527, on (one ':') [.saveHost] 514,
    go regChar 523]),
  (527, pathAfter [.saveHost, .markh] ++ [go [(2, 2)] 237, go (one '%') 258, go (one '0') 528,
    go (one '1') 530, go (one '2') 532, on (one ':') [.saveHost] 514, go digit 531, go regChar 523]),
  (528, pathAfter [.saveHost, .markh] ++ [go (one '%') 258, go (one '.') 529, on (one ':') [.saveHost] 514,
    go regChar 523]),
  (529, pathAfter [.saveHost, .markh] ++ [go [(2, 2)] 241, go (one '%') 258, on (one ':') [.saveHost] 514,
    go regChar 523]),
  (530, pathAfter [.saveHost, .markh] ++ [go (one '%') 258, go (one '.') 529, on (one ':') [.saveHost] 514,
    go digit 531, go regChar 523]),
  (531, pathAfter [.saveHost, .markh] ++ [go (one '%') 258, go (one '.') 529, on (one ':') [.saveHost] 514,
    go digit 528, go regChar 523]),
  (532, pathAfter [.saveHost, .markh] ++ [go (one '%') 258, go (one '.') 529, go (one '5') 533,
    on (one ':') [.saveHost] 514, go digit 528, go regChar 523]),
  (533, pathAfter [.saveHost, .markh] ++ [go (one '%') 258, go (one '.') 529, on (one ':') [.saveHost] 514,
    go [(48, 53)] 528, go regChar 523]),
  (534, pathAfter [.saveHost, .markh] ++ [go (one '%') 258, go (one '.') 527, on (one ':') [.saveHost] 514,
    go digit 535, go regChar 523]),
  (535, pathAfter [.saveHost, .markh] ++ [go (one '%') 258, go (one '.') 527, on (one ':') [.saveHost] 514,
    go digit 526, go regChar 523]),
  (536, pathAfter [.saveHost, .markh] ++ [go (one '%') 258, go (one '.') 527, go (one '5') 537,
    on (one ':') [.saveHost] 514, go digit 526, go regChar 523]),
  (537, pathAfter [.saveHost, .markh] ++ [go (one '%') 258, go (one '.') 527, on (one ':') [.saveHost] 514,
    go [(48, 53)] 526, go regChar 523]),
  (538, pathAfter [.saveHost, .markh] ++ [go (one '%') 258, go (one '.') 525, on (one ':') [.saveHost] 514,
    go digit 539, go regChar 523]),
  (539, pathAfter [.saveHost, .markh] ++ [go (one '%') 258, go (one '.') 525, on (one ':') [.saveHost] 514,
    go digit 524, go regChar 523]),
  (540, pathAfter [.saveHost, .markh] ++ [go (one '%') 258, go (one '.') 525, go (one '5') 541,
    on (one ':') [.saveHost] 514, go digit 524, go regChar 523]),
  (541, pathAfter [.saveHost, .markh] ++ [go (one '%') 258, go (one '.') 525, on (one ':') [.saveHost] 514,
    go [(48, 53)] 524, go regChar 523]),
  (542, pathAfter [.savePort, .markh] ++ [go (one '%') 256, on (one '@') [.saveUserinfo] 522, go digit 542,
    go userChar 255]),
  (543, pathAfter [.saveHost, .markh] ++ [go (one '%') 253, go (one '.') 544, on (one ':') [.saveHost] 521,
    on (one '@') [.saveUserinfo] 522, go regChar 520]),
  (544, pathAfter [.saveHost, .markh] ++ [go [(2, 2)] 233, go (one '%') 253, go (one '0') 545,
    go (one '1') 553, go (one '2') 555, on (one ':') [.saveHost] 521, on (one '@') [.saveUserinfo] 522,
    go digit 554, go regChar 520]),
  (545, pathAfter [.saveHost, .markh] ++ [go (one '%') 253, go (one '.') 546, on (one ':') [.saveHost] 521,
    on (one '@') [.saveUserinfo] 522, go regChar 520]),
  (546, pathAfter [.saveHost, .markh] ++ [go [(2, 2)] 237, go (one '%') 253, go (one '0') 547,
    go (one '1') 549, go (one '2') 551, on (one ':') [.saveHost] 521, on (one '@') [.saveUserinfo] 522,
    go digit 550, go regChar 520]),
  (547, pathAfter [.saveHost, .markh] ++ [go (one '%') 253, go (one '.') 548, on (one ':') [.saveHost] 521,
    on (one '@') [.saveUserinfo] 522, go regChar 520]),
  (548, pathAfter [.saveHost, .markh] ++ [go [(2, 2)] 241, go (one '%') 253, on (one ':') [.saveHost] 521,
    on (one '@') [.saveUserinfo] 522, go regChar 520]),
  (549, pathAfter [.saveHost, .markh] ++ [go (one '%') 253, go (one '.') 548, on (one ':') [.saveHost] 521,
    on (one '@') [.saveUserinfo] 522, go digit 550, go regChar 520]),
  (550, pathAfter [.saveHost, .markh] ++ [go (one '%') 253, go (one '.') 548, on (one ':') [.saveHost] 521,
    on (one '@') [.saveUserinfo] 522, go digit 547, go regChar 520]),
  (551, pathAfter [.saveHost, .markh] ++ [go (one '%') 253, go (one '.') 548, go (one '5') 552,
    on (one ':') [.saveHost] 521, on (one '@') [.saveUserinfo] 522, go digit 547, go regChar 520]),
  (552, pathAfter [.saveHost, .markh] ++ [go (one '%') 253, go (one '.') 548, on (one ':') [.saveHost] 521,
    on (one '@') [.saveUserinfo] 522, go [(48, 53)] 547, go regChar 520]),
  (553, pathAfter [.saveHost, .markh] ++ [go (one '%') 253, go (one '.') 546, on (one ':') [.saveHost] 521,
    on (one '@') [.saveUserinfo] 522, go digit 554, go regChar 520]),
  (554, pathAfter [.saveHost, .markh] ++ [go (one '%') 253, go (one '.') 546, on (one ':') [.saveHost] 521,
    on (one '@') [.saveUserinfo] 522, go digit 545, go regChar 520]),
  (555, pathAfter [.saveHost, .markh] ++ [go (one '%') 253, go (one '.') 546, go (one '5') 556,
    on (one ':') [.saveHost] 521, on (one '@') [.saveUserinfo] 522, go digit 545, go regChar 520]),
  (556, pathAfter [.saveHost, .markh] ++ [go (one '%') 253, go (one '.') 546, on (one ':') [.saveHost] 521,
    on (one '@') [.saveUserinfo] 522, go [(48, 53)] 545, go regChar 520]),
  (557, pathAfter [.saveHost, .markh] ++ [go (one '%') 253, go (one '.') 544, on (one ':') [.saveHost] 521,
    on (one '@') [.saveUserinfo] 522, go digit 558, go regChar 520]),
  (558, pathAfter [.saveHost, .markh] ++ [go (one '%') 253, go (one '.') 544, on (one ':') [.saveHost] 521,
    on (one '@') [.saveUserinfo] 522, go digit 543, go regChar 520]),
  (559, pathAfter [.saveHost, .markh] ++ [go (one '%') 253, go (one '.') 544, go (one '5') 560,
    on (one ':') [.saveHost] 521, on (one '@') [.saveUserinfo] 522, go digit 543, go regChar 520]),
  (560, pathAfter [.saveHost, .markh] ++ [go (one '%') 253, go (one '.') 544, on (one ':') [.saveHost] 521,
    on (one '@') [.saveUserinfo] 522, go [(48, 53)] 543, go regChar 520])]

/-- The `IP_literal` of these URIs. -/
def literalRows : List (Nat × List (Edge Act)) := [
  (260, [go (one ':') 368, go (one 'v') 447, go xdigit 261]),
  (261, [go (one ':') 265, go xdigit 262]),
  (262, [go (one ':') 265, go xdigit 263]),
  (263, [go (one ':') 265, go xdigit 264]),
  (264, [go (one ':') 265]),
  (265, [go (one ':') 363, go xdigit 266]),
  (266, [go (one ':') 270, go xdigit 267]),
  (267, [go (one ':') 270, go xdigit 268]),
  (268, [go (one ':') 270, go xdigit 269]),
  (269, [go (one ':') 270]),
  (270, [go (one ':') 358, go xdigit 271]),
  (271, [go (one ':') 275, go xdigit 272]),
  (272, [go (one ':') 275, go xdigit 273]),
  (273, [go (one ':') 275, go xdigit 274]),
  (274, [go (one ':') 275]),
  (275, [go (one ':') 353, go xdigit 276]),
  (276, [go (one ':') 280, go xdigit 277]),
  (277, [go (one ':') 280, go xdigit 278]),
  (278, [go (one ':') 280, go xdigit 279]),
  (279, [go (one ':') 280]),
  (280, [go (one ':') 348, go xdigit 281]),
  (281, [go (one ':') 285, go xdigit 282]),
  (282, [go (one ':') 285, go xdigit 283]),
  (283, [go (one ':') 285, go xdigit 284]),
  (284, [go (one ':') 285]),
  (285, [go (one ':') 335, go xdigit 286]),
  (286, [go (one ':') 290, go xdigit 287]),
  (287, [go (one ':') 290, go xdigit 288]),
  (288, [go (one ':') 290, go xdigit 289]),
  (289, [go (one ':') 290]),
  (290, [go [(2, 2)] 291, go (one '0') 318, go (one '1') 326, go (one '2') 329, go (one ':') 333,
    go digit 332, go xdigit 334]),
  (291, [go [(48, 52)] 292]),
  (292, [go digit 293]),
  (293, [go (one '.') 294]),
  (294, [go [(2, 2)] 295, go (one '0') 297, go (one '1') 314, go (one '2') 316, go digit 315]),
  (295, [go [(48, 52)] 296]),
  (296, [go digit 297]),
  (297, [go (one '.') 298]),
  (298, [go [(2, 2)] 299, go (one '0') 301, go (one '1') 310, go (one '2') 312, go digit 311]),
  (299, [go [(48, 52)] 300]),
  (300, [go digit 301]),
  (301, [go (one '.') 302]),
  (302, [go [(2, 2)] 303, go (one '0') 305, go (one '1') 306, go (one '2') 308, go digit 307]),
  (303, [go [(48, 52)] 304]),
  (304, [go digit 305]),
  (305, [go (one ']') 512]),
  (306, [go (one ']') 512, go digit 307]),
  (307, [go (one ']') 512, go digit 305]),
  (308, [go (one '5') 309, go (one ']') 512, go digit 305]),
  (309, [go (one ']') 512, go [(48, 53)] 305]),
  (310, [go (one '.') 302, go digit 311]),
  (311, [go (one '.') 302, go digit 301]),
  (312, [go (one '.') 302, go (one '5') 313, go digit 301]),
  (313, [go (one '.') 302, go [(48, 53)] 301]),
  (314, [go (one '.') 298, go digit 315]),
  (315, [go (one '.') 298, go digit 297]),
  (316, [go (one '.') 298, go (one '5') 317, go digit 297]),
  (317, [go (one '.') 298, go [(48, 53)] 297]),
  (318, [go (one '.') 294, go (one ':') 322, go xdigit 319]),
  (319, [go (one ':') 322, go xdigit 320]),
  (320, [go (one ':') 322, go xdigit 321]),
  (321, [go (one ':') 322]),
  (322, [go (one ':') 305, go xdigit 323]),
  (323, [go (one ']') 512, go xdigit 324]),
  (324, [go (one ']') 512, go xdigit 325]),
  (325, [go (one ']') 512, go xdigit 305]),
  (326, [go (one '.') 294, go (one ':') 322, go digit 327, go xdigit 319]),
  (327, [go (one '.') 294, go (one ':') 322, go digit 328, go xdigit 320]),
  (328, [go (one '.') 294, go (one ':') 322, go xdigit 321]),
  (329, [go (one '.') 294, go (one '5') 331, go (one ':') 322, go digit 330, go xdigit 319]),
  (330, [go (one '.') 294, go (one ':') 322, go xdigit 320]),
  (331, [go (one '.') 294, go (one ':') 322, go [(48, 53)] 328, go xdigit 320]),
  (332, [go (one '.') 294, go (one ':') 322, go digit 330, go xdigit 319]),
  (333, [go xdigit 323]),
  (334, [go (one ':') 322, go xdigit 319]),
  (335, [go [(2, 2)] 291, go (one '0') 336, go (one '1') 340, go (one '2') 343, go digit 346, go xdigit 347]),
  (336, [go (one '.') 294, go (one ':') 333, go xdigit 337]),
  (337, [go (one ':') 333, go xdigit 338]),
  (338, [go (one ':') 333, go xdigit 339]),
  (339, [go (one ':') 333]),
  (340, [go (one '.') 294, go (one ':') 333, go digit 341, go xdigit 337]),
  (341, [go (one '.') 294, go (one ':') 333, go digit 342, go xdigit 338]),
  (342, [go (one '.') 294, go (one ':') 333, go xdigit 339]),
  (343, [go (one '.') 294, go (one '5') 345, go (one ':') 333, go digit 344, go xdigit 337]),
  (344, [go (one '.') 294, go (one ':') 333, go xdigit 338]),
  (345, [go (one '.') 294, go (one ':') 333, go [(48, 53)] 342, go xdigit 338]),
  (346, [go (one '.') 294, go (one ':') 333, go digit 344, go xdigit 337]),
  (347, [go (one ':') 333, go xdigit 337]),
  (348, [go xdigit 349]),
  (349, [go (one ':') 335, go xdigit 350]),
  (350, [go (one ':') 335, go xdigit 351]),
  (351, [go (one ':') 335, go xdigit 352]),
  (352, [go (one ':') 335]),
  (353, [go xdigit 354]),
  (354, [go (one ':') 348, go xdigit 355]),
  (355, [go (one ':') 348, go xdigit 356]),
  (356, [go (one ':') 348, go xdigit 357]),
  (357, [go (one ':') 348]),
  (358, [go xdigit 359]),
  (359, [go (one ':') 353, go xdigit 360]),
  (360, [go (one ':') 353, go xdigit 361]),
  (361, [go (one ':') 353, go xdigit 362]),
  (362, [go (one ':') 353]),
  (363, [go xdigit 364]),
  (364, [go (one ':') 358, go xdigit 365]),
  (365, [go (one ':') 358, go xdigit 366]),
  (366, [go (one ':') 358, go xdigit 367]),
  (367, [go (one ':') 358]),
  (368, [go (one ':') 369]),
  (369, [go [(2, 2)] 291, go (one '0') 370, go (one '1') 439, go (one '2') 442, go (one ']') 512,
    go digit 445, go xdigit 446]),
  (370, [go (one '.') 294, go (one ':') 374, go (one ']') 512, go xdigit 371]),
  (371, [go (one ':') 374, go (one ']') 512, go xdigit 372]),
  (372, [go (one ':') 374, go (one ']') 512, go xdigit 373]),
  (373, [go (one ':') 374, go (one ']') 512]),
  (374, [go [(2, 2)] 291, go (one '0') 375, go (one '1') 431, go (one '2') 434, go digit 437, go xdigit 438]),
  (375, [go (one '.') 294, go (one ':') 379, go (one ']') 512, go xdigit 376]),
  (376, [go (one ':') 379, go (one ']') 512, go xdigit 377]),
  (377, [go (one ':') 379, go (one ']') 512, go xdigit 378]),
  (378, [go (one ':') 379, go (one ']') 512]),
  (379, [go [(2, 2)] 291, go (one '0') 380, go (one '1') 423, go (one '2') 426, go digit 429, go xdigit 430]),
  (380, [go (one '.') 294, go (one ':') 384, go (one ']') 512, go xdigit 381]),
  (381, [go (one ':') 384, go (one ']') 512, go xdigit 382]),
  (382, [go (one ':') 384, go (one ']') 512, go xdigit 383]),
  (383, [go (one ':') 384, go (one ']') 512]),
  (384, [go [(2, 2)] 291, go (one '0') 385, go (one '1') 415, go (one '2') 418, go digit 421, go xdigit 422]),
  (385, [go (one '.') 294, go (one ':') 389, go (one ']') 512, go xdigit 386]),
  (386, [go (one ':') 389, go (one ']') 512, go xdigit 387]),
  (387, [go (one ':') 389, go (one ']') 512, go xdigit 388]),
  (388, [go (one ':') 389, go (one ']') 512]),
  (389, [go [(2, 2)] 291, go (one '0') 390, go (one '1') 407, go (one '2') 410, go digit 413, go xdigit 414]),
  (390, [go (one '.') 294, go (one ':') 394, go (one ']') 512, go xdigit 391]),
  (391, [go (one ':') 394, go (one ']') 512, go xdigit 392]),
  (392, [go (one ':') 394, go (one ']') 512, go xdigit 393]),
  (393, [go (one ':') 394, go (one ']') 512]),
  (394, [go [(2, 2)] 291, go (one '0') 395, go (one '1') 399, go (one '2') 402, go digit 405, go xdigit 406]),
  (395, [go (one '.') 294, go (one ':') 333, go (one ']') 512, go xdigit 396]),
  (396, [go (one ':') 333, go (one ']') 512, go xdigit 397]),
  (397, [go (one ':') 333, go (one ']') 512, go xdigit 398]),
  (398, [go (one ':') 333, go (one ']') 512]),
  (399, [go (one '.') 294, go (one ':') 333, go (one ']') 512, go digit 400, go xdigit 396]),
  (400, [go (one '.') 294, go (one ':') 333, go (one ']') 512, go digit 401, go xdigit 397]),
  (401, [go (one '.') 294, go (one ':') 333, go (one ']') 512, go xdigit 398]),
  (402, [go (one '.') 294, go (one '5') 404, go (one ':') 333, go (one ']') 512, go digit 403, go xdigit 396]),
  (403, [go (one '.') 294, go (one ':') 333, go (one ']') 512, go xdigit 397]),
  (404, [go (one '.') 294, go (one ':') 333, go (one ']') 512, go [(48, 53)] 401, go xdigit 397]),
  (405, [go (one '.') 294, go (one ':') 333, go (one ']') 512, go digit 403, go xdigit 396]),
  (406, [go (one ':') 333, go (one ']') 512, go xdigit 396]),
  (407, [go (one '.') 294, go (one ':') 394, go (one ']') 512, go digit 408, go xdigit 391]),
  (408, [go (one '.') 294, go (one ':') 394, go (one ']') 512, go digit 409, go xdigit 392]),
  (409, [go (one '.') 294, go (one ':') 394, go (one ']') 512, go xdigit 393]),
  (410, [go (one '.') 294, go (one '5') 412, go (one ':') 394, go (one ']') 512, go digit 411, go xdigit 391]),
  (411, [go (one '.') 294, go (one ':') 394, go (one ']') 512, go xdigit 392]),
  (412, [go (one '.') 294, go (one ':') 394, go (one ']') 512, go [(48, 53)] 409, go xdigit 392]),
  (413, [go (one '.') 294, go (one ':') 394, go (one ']') 512, go digit 411, go xdigit 391]),
  (414, [go (one ':') 394, go (one ']') 512, go xdigit 391]),
  (415, [go (one '.') 294, go (one ':') 389, go (one ']') 512, go digit 416, go xdigit 386]),
  (416, [go (one '.') 294, go (one ':') 389, go (one ']') 512, go digit 417, go xdigit 387]),
  (417, [go (one '.') 294, go (one ':') 389, go (one ']') 512, go xdigit 388]),
  (418, [go (one '.') 294, go (one '5') 420, go (one ':') 389, go (one ']') 512, go digit 419, go xdigit 386]),
  (419, [go (one '.') 294, go (one ':') 389, go (one ']') 512, go xdigit 387]),
  (420, [go (one '.') 294, go (one ':') 389, go (one ']') 512, go [(48, 53)] 417, go xdigit 387]),
  (421, [go (one '.') 294, go (one ':') 389, go (one ']') 512, go digit 419, go xdigit 386]),
  (422, [go (one ':') 389, go (one ']') 512, go xdigit 386]),
  (423, [go (one '.') 294, go (one ':') 384, go (one ']') 512, go digit 424, go xdigit 381]),
  (424, [go (one '.') 294, go (one ':') 384, go (one ']') 512, go digit 425, go xdigit 382]),
  (425, [go (one '.') 294, go (one ':') 384, go (one ']') 512, go xdigit 383]),
  (426, [go (one '.') 294, go (one '5') 428, go (one ':') 384, go (one ']') 512, go digit 427, go xdigit 381]),
  (427, [go (one '.') 294, go (one ':') 384, go (one ']') 512, go xdigit 382]),
  (428, [go (one '.') 294, go (one ':') 384, go (one ']') 512, go [(48, 53)] 425, go xdigit 382]),
  (429, [go (one '.') 294, go (one ':') 384, go (one ']') 512, go digit 427, go xdigit 381]),
  (430, [go (one ':') 384, go (one ']') 512, go xdigit 381]),
  (431, [go (one '.') 294, go (one ':') 379, go (one ']') 512, go digit 432, go xdigit 376]),
  (432, [go (one '.') 294, go (one ':') 379, go (one ']') 512, go digit 433, go xdigit 377]),
  (433, [go (one '.') 294, go (one ':') 379, go (one ']') 512, go xdigit 378]),
  (434, [go (one '.') 294, go (one '5') 436, go (one ':') 379, go (one ']') 512, go digit 435, go xdigit 376]),
  (435, [go (one '.') 294, go (one ':') 379, go (one ']') 512, go xdigit 377]),
  (436, [go (one '.') 294, go (one ':') 379, go (one ']') 512, go [(48, 53)] 433, go xdigit 377]),
  (437, [go (one '.') 294, go (one ':') 379, go (one ']') 512, go digit 435, go xdigit 376]),
  (438, [go (one ':') 379, go (one ']') 512, go xdigit 376]),
  (439, [go (one '.') 294, go (one ':') 374, go (one ']') 512, go digit 440, go xdigit 371]),
  (440, [go (one '.') 294, go (one ':') 374, go (one ']') 512, go digit 441, go xdigit 372]),
  (441, [go (one '.') 294, go (one ':') 374, go (one ']') 512, go xdigit 373]),
  (442, [go (one '.') 294, go (one '5') 444, go (one ':') 374, go (one ']') 512, go digit 443, go xdigit 371]),
  (443, [go (one '.') 294, go (one ':') 374, go (one ']') 512, go xdigit 372]),
  (444, [go (one '.') 294, go (one ':') 374, go (one ']') 512, go [(48, 53)] 441, go xdigit 372]),
  (445, [go (one '.') 294, go (one ':') 374, go (one ']') 512, go digit 443, go xdigit 371]),
  (446, [go (one ':') 374, go (one ']') 512, go xdigit 371]),
  (447, [go xdigit 448]),
  (448, [go (one '.') 449, go xdigit 448]),
  (449, [go userChar 450]),
  (450, [go (one ']') 512, go userChar 450])]

/-- The relative references, and the URIs without an authority. -/
def relativeRows : List (Nat × List (Edge Act)) := [
  (3, [go xdigit 4]),
  (4, [go xdigit 452]),
  (5, [go xdigit 6]),
  (6, [go xdigit 455]),
  (9, [go [(48, 52)] 10]),
  (10, [go digit 11]),
  (11, [go (one '.') 12]),
  (12, [go [(2, 2)] 13, go (one '0') 15, go (one '1') 27, go (one '2') 29, go digit 28]),
  (13, [go [(48, 52)] 14]),
  (14, [go digit 15]),
  (15, [go (one '.') 16]),
  (16, [go [(2, 2)] 17, go (one '0') 19, go (one '1') 23, go (one '2') 25, go digit 24]),
  (17, [go [(48, 52)] 18]),
  (18, [go digit 19]),
  (19, [go (one '.') 20]),
  (20, [go [(2, 2)] 21, go (one '0') 460, go (one '1') 463, go (one '2') 465, go digit 464]),
  (21, [go [(48, 52)] 22]),
  (22, [go digit 460]),
  (23, [go (one '.') 20, go digit 24]),
  (24, [go (one '.') 20, go digit 19]),
  (25, [go (one '.') 20, go (one '5') 26, go digit 19]),
  (26, [go (one '.') 20, go [(48, 53)] 19]),
  (27, [go (one '.') 16, go digit 28]),
  (28, [go (one '.') 16, go digit 15]),
  (29, [go (one '.') 16, go (one '5') 30, go digit 15]),
  (30, [go (one '.') 16, go [(48, 53)] 15]),
  (31, [go xdigit 32]),
  (32, [go xdigit 467]),
  (33, [go (one '%') 34, on (one '@') [.saveUserinfo] 469, go userChar 33]),
  (34, [go xdigit 35]),
  (35, [go xdigit 33]),
  (36, [go xdigit 37]),
  (37, [go xdigit 470]),
  (38, [go (one ':') 146, go (one 'v') 225, go xdigit 39]),
  (39, [go (one ':') 43, go xdigit 40]),
  (40, [go (one ':') 43, go xdigit 41]),
  (41, [go (one ':') 43, go xdigit 42]),
  (42, [go (one ':') 43]),
  (43, [go (one ':') 141, go xdigit 44]),
  (44, [go (one ':') 48, go xdigit 45]),
  (45, [go (one ':') 48, go xdigit 46]),
  (46, [go (one ':') 48, go xdigit 47]),
  (47, [go (one ':') 48]),
  (48, [go (one ':') 136, go xdigit 49]),
  (49, [go (one ':') 53, go xdigit 50]),
  (50, [go (one ':') 53, go xdigit 51]),
  (51, [go (one ':') 53, go xdigit 52]),
  (52, [go (one ':') 53]),
  (53, [go (one ':') 131, go xdigit 54]),
  (54, [go (one ':') 58, go xdigit 55]),
  (55, [go (one ':') 58, go xdigit 56]),
  (56, [go (one ':') 58, go xdigit 57]),
  (57, [go (one ':') 58]),
  (58, [go (one ':') 126, go xdigit 59]),
  (59, [go (one ':') 63, go xdigit 60]),
  (60, [go (one ':') 63, go xdigit 61]),
  (61, [go (one ':') 63, go xdigit 62]),
  (62, [go (one ':') 63]),
  (63, [go (one ':') 113, go xdigit 64]),
  (64, [go (one ':') 68, go xdigit 65]),
  (65, [go (one ':') 68, go xdigit 66]),
  (66, [go (one ':') 68, go xdigit 67]),
  (67, [go (one ':') 68]),
  (68, [go [(2, 2)] 69, go (one '0') 96, go (one '1') 104, go (one '2') 107, go (one ':') 111, go digit 110,
    go xdigit 112]),
  (69, [go [(48, 52)] 70]),
  (70, [go digit 71]),
  (71, [go (one '.') 72]),
  (72, [go [(2, 2)] 73, go (one '0') 75, go (one '1') 92, go (one '2') 94, go digit 93]),
  (73, [go [(48, 52)] 74]),
  (74, [go digit 75]),
  (75, [go (one '.') 76]),
  (76, [go [(2, 2)] 77, go (one '0') 79, go (one '1') 88, go (one '2') 90, go digit 89]),
  (77, [go [(48, 52)] 78]),
  (78, [go digit 79]),
  (79, [go (one '.') 80]),
  (80, [go [(2, 2)] 81, go (one '0') 83, go (one '1') 84, go (one '2') 86, go digit 85]),
  (81, [go [(48, 52)] 82]),
  (82, [go digit 83]),
  (83, [go (one ']') 460]),
  (84, [go (one ']') 460, go digit 85]),
  (85, [go (one ']') 460, go digit 83]),
  (86, [go (one '5') 87, go (one ']') 460, go digit 83]),
  (87, [go (one ']') 460, go [(48, 53)] 83]),
  (88, [go (one '.') 80, go digit 89]),
  (89, [go (one '.') 80, go digit 79]),
  (90, [go (one '.') 80, go (one '5') 91, go digit 79]),
  (91, [go (one '.') 80, go [(48, 53)] 79]),
  (92, [go (one '.') 76, go digit 93]),
  (93, [go (one '.') 76, go digit 75]),
  (94, [go (one '.') 76, go (one '5') 95, go digit 75]),
  (95, [go (one '.') 76, go [(48, 53)] 75]),
  (96, [go (one '.') 72, go (one ':') 100, go xdigit 97]),
  (97, [go (one ':') 100, go xdigit 98]),
  (98, [go (one ':') 100, go xdigit 99]),
  (99, [go (one ':') 100]),
  (100, [go (one ':') 83, go xdigit 101]),
  (101, [go (one ']') 460, go xdigit 102]),
  (102, [go (one ']') 460, go xdigit 103]),
  (103, [go (one ']') 460, go xdigit 83]),
  (104, [go (one '.') 72, go (one ':') 100, go digit 105, go xdigit 97]),
  (105, [go (one '.') 72, go (one ':') 100, go digit 106, go xdigit 98]),
  (106, [go (one '.') 72, go (one ':') 100, go xdigit 99]),
  (107, [go (one '.') 72, go (one '5') 109, go (one ':') 100, go digit 108, go xdigit 97]),
  (108, [go (one '.') 72, go (one ':') 100, go xdigit 98]),
  (109, [go (one '.') 72, go (one ':') 100, go [(48, 53)] 106, go xdigit 98]),
  (110, [go (one '.') 72, go (one ':') 100, go digit 108, go xdigit 97]),
  (111, [go xdigit 101]),
  (112, [go (one ':') 100, go xdigit 97]),
  (113, [go [(2, 2)] 69, go (one '0') 114, go (one '1') 118, go (one '2') 121, go digit 124, go xdigit 125]),
  (114, [go (one '.') 72, go (one ':') 111, go xdigit 115]),
  (115, [go (one ':') 111, go xdigit 116]),
  (116, [go (one ':') 111, go xdigit 117]),
  (117, [go (one ':') 111]),
  (118, [go (one '.') 72, go (one ':') 111, go digit 119, go xdigit 115]),
  (119, [go (one '.') 72, go (one ':') 111, go digit 120, go xdigit 116]),
  (120, [go (one '.') 72, go (one ':') 111, go xdigit 117]),
  (121, [go (one '.') 72, go (one '5') 123, go (one ':') 111, go digit 122, go xdigit 115]),
  (122, [go (one '.') 72, go (one ':') 111, go xdigit 116]),
  (123, [go (one '.') 72, go (one ':') 111, go [(48, 53)] 120, go xdigit 116]),
  (124, [go (one '.') 72, go (one ':') 111, go digit 122, go xdigit 115]),
  (125, [go (one ':') 111, go xdigit 115]),
  (126, [go xdigit 127]),
  (127, [go (one ':') 113, go xdigit 128]),
  (128, [go (one ':') 113, go xdigit 129]),
  (129, [go (one ':') 113, go xdigit 130]),
  (130, [go (one ':') 113]),
  (131, [go xdigit 132]),
  (132, [go (one ':') 126, go xdigit 133]),
  (133, [go (one ':') 126, go xdigit 134]),
  (134, [go (one ':') 126, go xdigit 135]),
  (135, [go (one ':') 126]),
  (136, [go xdigit 137]),
  (137, [go (one ':') 131, go xdigit 138]),
  (138, [go (one ':') 131, go xdigit 139]),
  (139, [go (one ':') 131, go xdigit 140]),
  (140, [go (one ':') 131]),
  (141, [go xdigit 142]),
  (142, [go (one ':') 136, go xdigit 143]),
  (143, [go (one ':') 136, go xdigit 144]),
  (144, [go (one ':') 136, go xdigit 145]),
  (145, [go (one ':') 136]),
  (146, [go (one ':') 147]),
  (147, [go [(2, 2)] 69, go (one '0') 148, go (one '1') 217, go (one '2') 220, go (one ']') 460,
    go digit 223, go xdigit 224]),
  (148, [go (one '.') 72, go (one ':') 152, go (one ']') 460, go xdigit 149]),
  (149, [go (one ':') 152, go (one ']') 460, go xdigit 150]),
  (150, [go (one ':') 152, go (one ']') 460, go xdigit 151]),
  (151, [go (one ':') 152, go (one ']') 460]),
  (152, [go [(2, 2)] 69, go (one '0') 153, go (one '1') 209, go (one '2') 212, go digit 215, go xdigit 216]),
  (153, [go (one '.') 72, go (one ':') 157, go (one ']') 460, go xdigit 154]),
  (154, [go (one ':') 157, go (one ']') 460, go xdigit 155]),
  (155, [go (one ':') 157, go (one ']') 460, go xdigit 156]),
  (156, [go (one ':') 157, go (one ']') 460]),
  (157, [go [(2, 2)] 69, go (one '0') 158, go (one '1') 201, go (one '2') 204, go digit 207, go xdigit 208]),
  (158, [go (one '.') 72, go (one ':') 162, go (one ']') 460, go xdigit 159]),
  (159, [go (one ':') 162, go (one ']') 460, go xdigit 160]),
  (160, [go (one ':') 162, go (one ']') 460, go xdigit 161]),
  (161, [go (one ':') 162, go (one ']') 460]),
  (162, [go [(2, 2)] 69, go (one '0') 163, go (one '1') 193, go (one '2') 196, go digit 199, go xdigit 200]),
  (163, [go (one '.') 72, go (one ':') 167, go (one ']') 460, go xdigit 164]),
  (164, [go (one ':') 167, go (one ']') 460, go xdigit 165]),
  (165, [go (one ':') 167, go (one ']') 460, go xdigit 166]),
  (166, [go (one ':') 167, go (one ']') 460]),
  (167, [go [(2, 2)] 69, go (one '0') 168, go (one '1') 185, go (one '2') 188, go digit 191, go xdigit 192]),
  (168, [go (one '.') 72, go (one ':') 172, go (one ']') 460, go xdigit 169]),
  (169, [go (one ':') 172, go (one ']') 460, go xdigit 170]),
  (170, [go (one ':') 172, go (one ']') 460, go xdigit 171]),
  (171, [go (one ':') 172, go (one ']') 460]),
  (172, [go [(2, 2)] 69, go (one '0') 173, go (one '1') 177, go (one '2') 180, go digit 183, go xdigit 184]),
  (173, [go (one '.') 72, go (one ':') 111, go (one ']') 460, go xdigit 174]),
  (174, [go (one ':') 111, go (one ']') 460, go xdigit 175]),
  (175, [go (one ':') 111, go (one ']') 460, go xdigit 176]),
  (176, [go (one ':') 111, go (one ']') 460]),
  (177, [go (one '.') 72, go (one ':') 111, go (one ']') 460, go digit 178, go xdigit 174]),
  (178, [go (one '.') 72, go (one ':') 111, go (one ']') 460, go digit 179, go xdigit 175]),
  (179, [go (one '.') 72, go (one ':') 111, go (one ']') 460, go xdigit 176]),
  (180, [go (one '.') 72, go (one '5') 182, go (one ':') 111, go (one ']') 460, go digit 181, go xdigit 174]),
  (181, [go (one '.') 72, go (one ':') 111, go (one ']') 460, go xdigit 175]),
  (182, [go (one '.') 72, go (one ':') 111, go (one ']') 460, go [(48, 53)] 179, go xdigit 175]),
  (183, [go (one '.') 72, go (one ':') 111, go (one ']') 460, go digit 181, go xdigit 174]),
  (184, [go (one ':') 111, go (one ']') 460, go xdigit 174]),
  (185, [go (one '.') 72, go (one ':') 172, go (one ']') 460, go digit 186, go xdigit 169]),
  (186, [go (one '.') 72, go (one ':') 172, go (one ']') 460, go digit 187, go xdigit 170]),
  (187, [go (one '.') 72, go (one ':') 172, go (one ']') 460, go xdigit 171]),
  (188, [go (one '.') 72, go (one '5') 190, go (one ':') 172, go (one ']') 460, go digit 189, go xdigit 169]),
  (189, [go (one '.') 72, go (one ':') 172, go (one ']') 460, go xdigit 170]),
  (190, [go (one '.') 72, go (one ':') 172, go (one ']') 460, go [(48, 53)] 187, go xdigit 170]),
  (191, [go (one '.') 72, go (one ':') 172, go (one ']') 460, go digit 189, go xdigit 169]),
  (192, [go (one ':') 172, go (one ']') 460, go xdigit 169]),
  (193, [go (one '.') 72, go (one ':') 167, go (one ']') 460, go digit 194, go xdigit 164]),
  (194, [go (one '.') 72, go (one ':') 167, go (one ']') 460, go digit 195, go xdigit 165]),
  (195, [go (one '.') 72, go (one ':') 167, go (one ']') 460, go xdigit 166]),
  (196, [go (one '.') 72, go (one '5') 198, go (one ':') 167, go (one ']') 460, go digit 197, go xdigit 164]),
  (197, [go (one '.') 72, go (one ':') 167, go (one ']') 460, go xdigit 165]),
  (198, [go (one '.') 72, go (one ':') 167, go (one ']') 460, go [(48, 53)] 195, go xdigit 165]),
  (199, [go (one '.') 72, go (one ':') 167, go (one ']') 460, go digit 197, go xdigit 164]),
  (200, [go (one ':') 167, go (one ']') 460, go xdigit 164]),
  (201, [go (one '.') 72, go (one ':') 162, go (one ']') 460, go digit 202, go xdigit 159]),
  (202, [go (one '.') 72, go (one ':') 162, go (one ']') 460, go digit 203, go xdigit 160]),
  (203, [go (one '.') 72, go (one ':') 162, go (one ']') 460, go xdigit 161]),
  (204, [go (one '.') 72, go (one '5') 206, go (one ':') 162, go (one ']') 460, go digit 205, go xdigit 159]),
  (205, [go (one '.') 72, go (one ':') 162, go (one ']') 460, go xdigit 160]),
  (206, [go (one '.') 72, go (one ':') 162, go (one ']') 460, go [(48, 53)] 203, go xdigit 160]),
  (207, [go (one '.') 72, go (one ':') 162, go (one ']') 460, go digit 205, go xdigit 159]),
  (208, [go (one ':') 162, go (one ']') 460, go xdigit 159]),
  (209, [go (one '.') 72, go (one ':') 157, go (one ']') 460, go digit 210, go xdigit 154]),
  (210, [go (one '.') 72, go (one ':') 157, go (one ']') 460, go digit 211, go xdigit 155]),
  (211, [go (one '.') 72, go (one ':') 157, go (one ']') 460, go xdigit 156]),
  (212, [go (one '.') 72, go (one '5') 214, go (one ':') 157, go (one ']') 460, go digit 213, go xdigit 154]),
  (213, [go (one '.') 72, go (one ':') 157, go (one ']') 460, go xdigit 155]),
  (214, [go (one '.') 72, go (one ':') 157, go (one ']') 460, go [(48, 53)] 211, go xdigit 155]),
  (215, [go (one '.') 72, go (one ':') 157, go (one ']') 460, go digit 213, go xdigit 154]),
  (216, [go (one ':') 157, go (one ']') 460, go xdigit 154]),
  (217, [go (one '.') 72, go (one ':') 152, go (one ']') 460, go digit 218, go xdigit 149]),
  (218, [go (one '.') 72, go (one ':') 152, go (one ']') 460, go digit 219, go xdigit 150]),
  (219, [go (one '.') 72, go (one ':') 152, go (one ']') 460, go xdigit 151]),
  (220, [go (one '.') 72, go (one '5') 222, go (one ':') 152, go (one ']') 460, go digit 221, go xdigit 149]),
  (221, [go (one '.') 72, go (one ':') 152, go (one ']') 460, go xdigit 150]),
  (222, [go (one '.') 72, go (one ':') 152, go (one ']') 460, go [(48, 53)] 219, go xdigit 150]),
  (223, [go (one '.') 72, go (one ':') 152, go (one ']') 460, go digit 221, go xdigit 149]),
  (224, [go (one ':') 152, go (one ']') 460, go xdigit 149]),
  (225, [go xdigit 226]),
  (226, [go (one '.') 227, go xdigit 226]),
  (227, [go userChar 228]),
  (228, [go (one ']') 460, go userChar 228]),
  (452, [go (one '#') 453, go (one '%') 3, go (one '/') 455, go (one '?') 456, go segChar 452]),
  (455, [go (one '#') 453, go (one '%') 5, go (one '?') 456, go pathChar 455]),
  (458, [go (one '#') 453, go (one '%') 5, go (one '/') 459, go (one '?') 456, go pchar 455]),
  (459, relativeAfter [.markh, .saveHost] ++ [on [(2, 2)] [.markh] 9, on (one '%') [.markh] 31,
    on (one '0') [.markh] 490, on (one '1') [.markh] 504, on (one '2') [.markh] 506,
    on (one ':') [.markh, .saveHost] 468, on (one '@') [.markh, .saveUserinfo] 469,
    on (one '[') [.markh] 38, on digit [.markh] 505, on regChar [.markh] 467]),
  (460, relativeAfter [.saveHost] ++ [on (one ':') [.saveHost] 461]),
  (461, relativeAfter [.markh, .savePort] ++ [on digit [.markh] 462]),
  (462, relativeAfter [.savePort] ++ [go digit 462]),
  (463, relativeAfter [.saveHost] ++ [on (one ':') [.saveHost] 461, go digit 464]),
  (464, relativeAfter [.saveHost] ++ [on (one ':') [.saveHost] 461, go digit 460]),
  (465, relativeAfter [.saveHost] ++ [go (one '5') 466, on (one ':') [.saveHost] 461, go digit 460]),
  (466, relativeAfter [.saveHost] ++ [on (one ':') [.saveHost] 461, go [(48, 53)] 460]),
  (467, relativeAfter [.saveHost] ++ [go (one '%') 31, on (one ':') [.saveHost] 468,
    on (one '@') [.saveUserinfo] 469, go regChar 467]),
  (468, relativeAfter [.markh, .savePort] ++ [go (one '%') 34, on (one '@') [.saveUserinfo] 469,
    on digit [.markh] 489, go userChar 33]),
  (469, relativeAfter [.markh, .saveHost] ++ [on [(2, 2)] [.markh] 9, on (one '%') [.markh] 36,
    on (one '0') [.markh] 471, on (one '1') [.markh] 485, on (one '2') [.markh] 487,
    on (one ':') [.markh, .saveHost] 461, on (one '[') [.markh] 38, on digit [.markh] 486,
    on regChar [.markh] 470]),
  (470, relativeAfter [.saveHost] ++ [go (one '%') 36, on (one ':') [.saveHost] 461, go regChar 470]),
  (471, relativeAfter [.saveHost] ++ [go (one '%') 36, go (one '.') 472, on (one ':') [.saveHost] 461,
    go regChar 470]),
  (472, relativeAfter [.saveHost] ++ [go [(2, 2)] 13, go (one '%') 36, go (one '0') 473, go (one '1') 481,
    go (one '2') 483, on (one ':') [.saveHost] 461, go digit 482, go regChar 470]),
  (473, relativeAfter [.saveHost] ++ [go (one '%') 36, go (one '.') 474, on (one ':') [.saveHost] 461,
    go regChar 470]),
  (474, relativeAfter [.saveHost] ++ [go [(2, 2)] 17, go (one '%') 36, go (one '0') 475, go (one '1') 477,
    go (one '2') 479, on (one ':') [.saveHost] 461, go digit 478, go regChar 470]),
  (475, relativeAfter [.saveHost] ++ [go (one '%') 36, go (one '.') 476, on (one ':') [.saveHost] 461,
    go regChar 470]),
  (476, relativeAfter [.saveHost] ++ [go [(2, 2)] 21, go (one '%') 36, on (one ':') [.saveHost] 461,
    go regChar 470]),
  (477, relativeAfter [.saveHost] ++ [go (one '%') 36, go (one '.') 476, on (one ':') [.saveHost] 461,
    go digit 478, go regChar 470]),
  (478, relativeAfter [.saveHost] ++ [go (one '%') 36, go (one '.') 476, on (one ':') [.saveHost] 461,
    go digit 475, go regChar 470]),
  (479, relativeAfter [.saveHost] ++ [go (one '%') 36, go (one '.') 476, go (one '5') 480,
    on (one ':') [.saveHost] 461, go digit 475, go regChar 470]),
  (480, relativeAfter [.saveHost] ++ [go (one '%') 36, go (one '.') 476, on (one ':') [.saveHost] 461,
    go [(48, 53)] 475, go regChar 470]),
  (481, relativeAfter [.saveHost] ++ [go (one '%') 36, go (one '.') 474, on (one ':') [.saveHost] 461,
    go digit 482, go regChar 470]),
  (482, relativeAfter [.saveHost] ++ [go (one '%') 36, go (one '.') 474, on (one ':') [.saveHost] 461,
    go digit 473, go regChar 470]),
  (483, relativeAfter [.saveHost] ++ [go (one '%') 36, go (one '.') 474, go (one '5') 484,
    on (one ':') [.saveHost] 461, go digit 473, go regChar 470]),
  (484, relativeAfter [.saveHost] ++ [go (one '%') 36, go (one '.') 474, on (one ':') [.saveHost] 461,
    go [(48, 53)] 473, go regChar 470]),
  (485, relativeAfter [.saveHost] ++ [go (one '%') 36, go (one '.') 472, on (one ':') [.saveHost] 461,
    go digit 486, go regChar 470]),
  (486, relativeAfter [.saveHost] ++ [go (one '%') 36, go (one '.') 472, on (one ':') [.saveHost] 461,
    go digit 471, go regChar 470]),
  (487, relativeAfter [.saveHost] ++ [go (one '%') 36, go (one '.') 472, go (one '5') 488,
    on (one ':') [.saveHost] 461, go digit 471, go regChar 470]),
  (488, relativeAfter [.saveHost] ++ [go (one '%') 36, go (one '.') 472, on (one ':') [.saveHost] 461,
    go [(48, 53)] 471, go regChar 470]),
  (489, relativeAfter [.savePort] ++ [go (one '%') 34, on (one '@') [.saveUserinfo] 469, go digit 489,
    go userChar 33]),
  (490, relativeAfter [.saveHost] ++ [go (one '%') 31, go (one '.') 491, on (one ':') [.saveHost] 468,
    on (one '@') [.saveUserinfo] 469, go regChar 467]),
  (491, relativeAfter [.saveHost] ++ [go [(2, 2)] 13, go (one '%') 31, go (one '0') 492, go (one '1') 500,
    go (one '2') 502, on (one ':') [.saveHost] 468, on (one '@') [.saveUserinfo] 469, go digit 501,
    go regChar 467]),
  (492, relativeAfter [.saveHost] ++ [go (one '%') 31, go (one '.') 493, on (one ':') [.saveHost] 468,
    on (one '@') [.saveUserinfo] 469, go regChar 467]),
  (493, relativeAfter [.saveHost] ++ [go [(2, 2)] 17, go (one '%') 31, go (one '0') 494, go (one '1') 496,
    go (one '2') 498, on (one ':') [.saveHost] 468, on (one '@') [.saveUserinfo] 469, go digit 497,
    go regChar 467]),
  (494, relativeAfter [.saveHost] ++ [go (one '%') 31, go (one '.') 495, on (one ':') [.saveHost] 468,
    on (one '@') [.saveUserinfo] 469, go regChar 467]),
  (495, relativeAfter [.saveHost] ++ [go [(2, 2)] 21, go (one '%') 31, on (one ':') [.saveHost] 468,
    on (one '@') [.saveUserinfo] 469, go regChar 467]),
  (496, relativeAfter [.saveHost] ++ [go (one '%') 31, go (one '.') 495, on (one ':') [.saveHost] 468,
    on (one '@') [.saveUserinfo] 469, go digit 497, go regChar 467]),
  (497, relativeAfter [.saveHost] ++ [go (one '%') 31, go (one '.') 495, on (one ':') [.saveHost] 468,
    on (one '@') [.saveUserinfo] 469, go digit 494, go regChar 467]),
  (498, relativeAfter [.saveHost] ++ [go (one '%') 31, go (one '.') 495, go (one '5') 499,
    on (one ':') [.saveHost] 468, on (one '@') [.saveUserinfo] 469, go digit 494, go regChar 467]),
  (499, relativeAfter [.saveHost] ++ [go (one '%') 31, go (one '.') 495, on (one ':') [.saveHost] 468,
    on (one '@') [.saveUserinfo] 469, go [(48, 53)] 494, go regChar 467]),
  (500, relativeAfter [.saveHost] ++ [go (one '%') 31, go (one '.') 493, on (one ':') [.saveHost] 468,
    on (one '@') [.saveUserinfo] 469, go digit 501, go regChar 467]),
  (501, relativeAfter [.saveHost] ++ [go (one '%') 31, go (one '.') 493, on (one ':') [.saveHost] 468,
    on (one '@') [.saveUserinfo] 469, go digit 492, go regChar 467]),
  (502, relativeAfter [.saveHost] ++ [go (one '%') 31, go (one '.') 493, go (one '5') 503,
    on (one ':') [.saveHost] 468, on (one '@') [.saveUserinfo] 469, go digit 492, go regChar 467]),
  (503, relativeAfter [.saveHost] ++ [go (one '%') 31, go (one '.') 493, on (one ':') [.saveHost] 468,
    on (one '@') [.saveUserinfo] 469, go [(48, 53)] 492, go regChar 467]),
  (504, relativeAfter [.saveHost] ++ [go (one '%') 31, go (one '.') 491, on (one ':') [.saveHost] 468,
    on (one '@') [.saveUserinfo] 469, go digit 505, go regChar 467]),
  (505, relativeAfter [.saveHost] ++ [go (one '%') 31, go (one '.') 491, on (one ':') [.saveHost] 468,
    on (one '@') [.saveUserinfo] 469, go digit 490, go regChar 467]),
  (506, relativeAfter [.saveHost] ++ [go (one '%') 31, go (one '.') 491, go (one '5') 507,
    on (one ':') [.saveHost] 468, on (one '@') [.saveUserinfo] 469, go digit 490, go regChar 467]),
  (507, relativeAfter [.saveHost] ++ [go (one '%') 31, go (one '.') 491, on (one ':') [.saveHost] 468,
    on (one '@') [.saveUserinfo] 469, go [(48, 53)] 490, go regChar 467])]

def rows : List (Nat × List (Edge Act)) := uriRows ++ literalRows ++ relativeRows

/-- The actions at the end of the input. -/
def eofRows : List (List Nat × List Act) := [
  ([462, 489], [.savePort]),
  ([460, 463, 464, 465, 466, 467, 470, 471, 472, 473, 474, 475, 476, 477, 478, 479, 480, 481, 482, 483,
    484, 485, 486, 487, 488, 490, 491, 492, 493, 494, 495, 496, 497, 498, 499, 500, 501, 502, 503, 504,
    505, 506, 507], [.saveHost]),
  ([513], [.savePath]),
  ([457], [.saveQuery]),
  ([454], [.saveFragment]),
  ([456], [.marku, .saveQuery]),
  ([453], [.marku, .saveFragment]),
  ([461, 468], [.markh, .savePort]),
  ([459, 469], [.markh, .saveHost]),
  ([514, 521], [.markh, .savePort, .savePath]),
  ([511, 522], [.markh, .saveHost, .savePath]),
  ([515, 542], [.savePort, .markh, .savePath]),
  ([512, 516, 517, 518, 519, 520, 523, 524, 525, 526, 527, 528, 529, 530, 531, 532, 533, 534, 535, 536,
    537, 538, 539, 540, 541, 543, 544, 545, 546, 547, 548, 549, 550, 551, 552, 553, 554, 555, 556, 557,
    558, 559, 560], [.saveHost, .markh, .savePath])]

def eofActs (cs : Nat) : List Act := ((eofRows.find? fun r => r.1.contains cs).map Prod.snd).getD []

def start : Nat := 451

def firstFinal : Nat := 451

def error : Nat := 0

def machine : Machine Act where
  next := lookup rows false
  breaks _ := false

end Linko.UriParser
