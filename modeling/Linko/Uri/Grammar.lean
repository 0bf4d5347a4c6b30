import Linko.Lib.Regex
import Linko.Uri.Machine
/-!
# The grammar of `uri.rl`

The productions of `uri_parser`, without their actions. The `2` of `dec_octet`
has no quotes: to Ragel it is the byte of that value.
-/

namespace Linko.UriParser.Grammar

open Ragel Regex

def colon : Regex := cls (one ':')
def dot : Regex := cls (one '.')
def slash : Regex := cls (one '/')

def unreserved : ByteClass := [(45, 46), (48, 57), (65, 90), (95, 95), (97, 122), (126, 126)]
def subDelims : ByteClass := [(33, 33), (36, 36), (38, 44), (59, 59), (61, 61)]

def pctEncoded : Regex := seq (cls (one '%')) (seq (cls xdigit) (cls xdigit))

def scheme : Regex := seq (cls alpha) (star (cls (alpha ++ digit ++ one '+' ++ one '-' ++ one '.')))

def userinfo : Regex :=
  star (alt (cls unreserved) (alt pctEncoded (alt (cls subDelims) colon)))

def decOctet : Regex :=
  alt (cls digit)
    (alt (seq (cls [(49, 57)]) (cls digit))
      (alt (seq (cls (one '1')) (times 2 (cls digit)))
        (alt (seq (cls [(2, 2)]) (seq (cls [(48, 52)]) (cls digit)))
          (seq (lit ['2', '5']) (cls [(48, 53)])))))

def IPv4address : Regex :=
  seq decOctet (seq dot (seq decOctet (seq dot (seq decOctet (seq dot decOctet)))))

/-- `xdigit{1,4}` -/
def h16 : Regex := seq (cls xdigit) (opt (seq (cls xdigit) (opt (seq (cls xdigit) (opt (cls xdigit))))))

def ls32 : Regex := alt (seq h16 (seq colon h16)) IPv4address

/-- `((h16 ":"){n} h16)? "::" r` -/
def compressed (n : Nat) (r : Regex) : Regex :=
  seq (opt (seq (times n (seq h16 colon)) h16)) (seq (seq colon colon) r)

def IPv6address : Regex :=
  alt (seq (times 6 (seq h16 colon)) ls32)
    (alt (seq (seq colon colon) (seq (times 5 (seq h16 colon)) ls32))
      (alt (compressed 0 (seq (times 4 (seq h16 colon)) ls32))
        (alt (compressed 1 (seq (times 3 (seq h16 colon)) ls32))
          (alt (compressed 2 (seq (times 2 (seq h16 colon)) ls32))
            (alt (compressed 3 (seq (times 1 (seq h16 colon)) ls32))
              (alt (compressed 4 ls32)
                (alt (compressed 5 h16)
                  (compressed 6 eps))))))))

def regName : Regex := star (alt (cls unreserved) (alt pctEncoded (cls subDelims)))

def port : Regex := star (cls digit)

/-- `any -- ascii` is what a `char` has below zero. -/
def pchar : Regex :=
  alt (cls [(128, 255)])
    (alt (cls unreserved) (alt pctEncoded (alt (cls subDelims) (alt colon (cls (one '@'))))))

def segment : Regex := star pchar

def pathAbempty : Regex := seq (opt (seq slash segment)) (star (seq slash segment))

def query : Regex := star (alt pchar (alt slash (cls (one '?'))))

def fragment : Regex := star (alt pchar (alt slash (cls (one '?'))))

end Linko.UriParser.Grammar
