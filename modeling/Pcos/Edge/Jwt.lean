import Pcos.Backend.Passwords
import Pcos.Edge.Recovery
import Pcos.Foundations.Base64Url
import Pcos.Foundations.JsonTree
import Pcos.Foundations.Utf8

/-!
# Edge/Jwt — tokens, from their bytes (`services/auth.ts`)

A token is three texts in base64 for URLs, which the edge encodes and decodes with `btoa` and
`atob`.  What is signed for a payload is read back until its `exp`, and by no other secret:
`jwt_roundTrip`.
-/

namespace Pcos.Edge.Jwt

open Foundations Base64 Hmac Passwords Accounts

/-! ## Base64 for URLs -/

/-- `replace(/a/g, 'b')` -/
def replaceAll (a b : Char) (l : List Char) : List Char := l.map fun c => if c = a then b else c

def base64UrlEncode (bytes : Bytes) : String :=
  String.ofList
    ((replaceAll '/' '_' (replaceAll '+' '-' (encodeChars bytes))).rdropWhile (· = '='))

theorem jsLength_concat (s : String) : jsLength (s ++ "=") = jsLength s + 1 := by
  rw [jsLength, String.toList_append, List.map_append, List.sum_append]
  rfl

/-- `while (base64.length % 4) { base64 += '='; }` -/
def pad (base64 : String) : String :=
  if jsLength base64 % 4 = 0 then base64 else pad (base64 ++ "=")
termination_by (4 - jsLength base64 % 4) % 4
decreasing_by
  rw [jsLength_concat]
  omega

def base64UrlDecode (str : String) : Option Bytes :=
  atob (pad (String.ofList (replaceAll '_' '/' (replaceAll '-' '+' str.toList)))).toList

/-! ## Values -/

/-- The values of JSON, with what the edge does with them: access to a property, which throws on
`null`, a comparison of a number, and texts. -/
structure Json where
  Value : Type
  text : String → Value
  number : ℤ → Value
  object : List (String × Value) → Value
  get : Value → String → Option (Option Value)
  isBelow : Value → ℤ → Bool
  stringify : Value → String
  parse : String → Option Value
  lossy : Bytes → String
  get_object : ∀ fields key, get (object fields) key = some (fields.lookup key)
  isBelow_number : ∀ m n, isBelow (number m) n = decide (m < n)
  stringify_object : ∀ fields, (stringify (object fields)).toList.head? = some '\x7b'

variable (sha : Sha256) (j : Json)

/-- `new TextDecoder().decode(bytes)`: a mark at the start is dropped, and what is not UTF-8
replaced. -/
def decodeText (bytes : Bytes) : String :=
  match decodeUtf8 bytes with
  | some s =>
    match s.toList with
    | '\uFEFF' :: rest => String.ofList rest
    | _ => s
  | none => j.lossy bytes

/-- `{ ...fields, key: v }` -/
def assign {V : Type} (fields : List (String × V)) (key : String) (v : V) : List (String × V) :=
  if key ∈ fields.map Prod.fst then fields.map fun f => if f.1 = key then (key, v) else f
  else fields ++ [(key, v)]

/-! ## Tokens -/

/-- HMAC of a text, under a secret. -/
def mac (secret data : String) : Bytes :=
  hmac sha.digest 64 (encodeUtf8 secret) (encodeUtf8 data)

def jwtHeader : j.Value := j.object [("alg", j.text "HS256"), ("typ", j.text "JWT")]

/-- The first two parts of a token. -/
def jwtData (payload : List (String × j.Value)) : String :=
  base64UrlEncode (encodeUtf8 (j.stringify (jwtHeader j))) ++ "." ++
    base64UrlEncode (encodeUtf8 (j.stringify (j.object payload)))

/-- A token at a time in milliseconds; an empty secret is no key. -/
def generateJwt (ms : ℤ) (payload : List (String × j.Value)) (secret : String)
    (expiresInSeconds : ℤ) : Option String :=
  let now := ms / 1000
  let fullPayload :=
    assign (assign payload "iat" (j.number now)) "exp" (j.number (now + expiresInSeconds))
  let data := jwtData j fullPayload
  if secret = "" then none else some (data ++ "." ++ base64UrlEncode (mac sha secret data))

/-- The payload of a token, at a time; `none` for `null`, and where it throws inside. -/
def verifyJwt (ms : ℤ) (token secret : String) : Option j.Value :=
  match token.toList.splitOnP (· = '.') with
  | [b64Header, b64Payload, b64Sig] =>
    let data := String.ofList b64Header ++ "." ++ String.ofList b64Payload
    if secret = "" then none
    else do
      let sig ← base64UrlDecode (String.ofList b64Sig)
      if sig ≠ mac sha secret data then none
      else do
        let bytes ← base64UrlDecode (String.ofList b64Payload)
        let payload ← j.parse (decodeText j bytes)
        let exp ← j.get payload "exp"
        if exp.any fun e => j.isBelow e (ms / 1000) then none else some payload
  | _ => none

/-! ## The bytes come back -/

/-- The digit of a number, for URLs. -/
def urlDigit (n : ℕ) : Char :=
  if digit n = '+' then '-' else if digit n = '/' then '_' else digit n

theorem urlDigit_spec : ∀ n < 64, urlDigit n ≠ '.' ∧ urlDigit n ≠ '=' ∧
    replaceAll '/' '_' (replaceAll '+' '-' [digit n]) = [urlDigit n] ∧
    replaceAll '_' '/' (replaceAll '-' '+' [urlDigit n]) = [digit n] := by
  decide +kernel

theorem replaceAll_map {a b a' b' : Char} {f g : ℕ → Char} : ∀ {ns : List ℕ}
    (_ : ∀ n ∈ ns, replaceAll a' b' (replaceAll a b [f n]) = [g n]),
    replaceAll a' b' (replaceAll a b (ns.map f)) = ns.map g
  | [], _ => rfl
  | n :: ns, h => by
      have hhead := (List.cons.inj (h n List.mem_cons_self)).1
      have hrest := replaceAll_map fun m hm => h m (List.mem_cons_of_mem n hm)
      exact congrArg₂ List.cons hhead hrest

/-- **The text is the digits**, without padding. -/
theorem toList_base64UrlEncode (bytes : Bytes) :
    (base64UrlEncode bytes).toList = (sixes bytes).map urlDigit := by
  have hlt := sixes_lt bytes
  have hpadding : replaceAll '/' '_' (replaceAll '+' '-' (encodeChars bytes)) =
      (sixes bytes).map urlDigit ++ List.replicate (padding bytes) '=' := by
    rw [encodeChars_eq, replaceAll, replaceAll, List.map_append, List.map_append, ← replaceAll,
      ← replaceAll, replaceAll_map fun n hn => (urlDigit_spec n (hlt n hn)).2.2.1]
    simp
  rw [base64UrlEncode, String.toList_ofList, hpadding]
  refine rdropWhile_pad (fun d hd => ?_) _
  obtain ⟨n, hn, rfl⟩ := List.mem_map.mp hd
  exact (urlDigit_spec n (hlt n hn)).2.1

theorem pad_eq : ∀ {k : ℕ} {s : String} (_ : (4 - jsLength s % 4) % 4 = k),
    (pad s).toList = s.toList ++ List.replicate k '='
  | 0, s, h => by rw [pad, if_pos (by omega), List.replicate_zero, List.append_nil]
  | k + 1, s, h => by
      have hnext : (4 - jsLength (s ++ "=") % 4) % 4 = k := by
        rw [jsLength_concat]
        omega
      rw [pad, if_neg (by omega), pad_eq hnext, String.toList_append, List.append_assoc]
      rfl

/-- The text is as long as it has digits. -/
theorem jsLength_digits {ns : List ℕ} (hlt : ∀ n ∈ ns, n < 64) :
    jsLength (String.ofList (ns.map digit)) = ns.length := by
  have hone : ∀ n ∈ ns, (if 0x10000 ≤ (digit n).toNat then 2 else 1) = 1 := fun n hn =>
    if_neg (by have hdigit := (digit_spec n (hlt n hn)).2; omega)
  rw [jsLength, String.toList_ofList, List.map_map]
  calc (ns.map _).sum = (ns.map fun _ => 1).sum := congrArg List.sum (List.map_congr_left hone)
    _ = ns.length := by simp

/-- **Bytes come back.** -/
theorem base64UrlDecode_base64UrlEncode (bytes : Bytes) :
    base64UrlDecode (base64UrlEncode bytes) = some bytes := by
  have hlt := sixes_lt bytes
  have hdigits : replaceAll '_' '/' (replaceAll '-' '+' (base64UrlEncode bytes).toList) =
      (sixes bytes).map digit := by
    rw [toList_base64UrlEncode, replaceAll_map fun n hn => (urlDigit_spec n (hlt n hn)).2.2.2]
  have hpadding := (length_sixes bytes).1.symm
  rw [← jsLength_digits hlt] at hpadding
  rw [base64UrlDecode, hdigits, pad_eq hpadding, String.toList_ofList, ← encodeChars_eq,
    atob_encodeChars]

/-! ## Tokens are read back -/

/-- No part of a token has a dot in it. -/
theorem ne_dot (bytes : Bytes) :
    ∀ c ∈ (base64UrlEncode bytes).toList, decide (c = '.') = false := by
  intro c hc
  rw [toList_base64UrlEncode] at hc
  obtain ⟨n, hn, rfl⟩ := List.mem_map.mp hc
  exact decide_eq_false (urlDigit_spec n (sixes_lt bytes n hn)).1

/-- **A token splits into its parts.** -/
theorem splitOnP_token (header payload sig : Bytes) :
    (base64UrlEncode header ++ "." ++ base64UrlEncode payload ++ "." ++
        base64UrlEncode sig).toList.splitOnP (· = '.') =
      [(base64UrlEncode header).toList, (base64UrlEncode payload).toList,
        (base64UrlEncode sig).toList] := by
  have hjoin : (base64UrlEncode header ++ "." ++ base64UrlEncode payload ++ "." ++
      base64UrlEncode sig).toList = ['.'].intercalate [(base64UrlEncode header).toList,
        (base64UrlEncode payload).toList, (base64UrlEncode sig).toList] := by
    simp [List.intercalate_cons_cons, List.intercalate_singleton]
  rw [hjoin]
  refine splitOnP_intercalate (decide_eq_true rfl) (List.cons_ne_nil _ _) fun piece hpiece => ?_
  simp only [List.mem_cons, List.not_mem_nil, or_false] at hpiece
  rcases hpiece with rfl | rfl | rfl
  · exact ne_dot header
  · exact ne_dot payload
  · exact ne_dot sig

/-- `Platform` promises the two dots of a token. -/
theorem count_dots (header payload sig : Bytes) :
    (base64UrlEncode header ++ "." ++ base64UrlEncode payload ++ "." ++
      base64UrlEncode sig).toList.count '.' = 2 := by
  have hnone (bytes : Bytes) : (base64UrlEncode bytes).toList.count '.' = 0 :=
    List.count_eq_zero.mpr fun hmem => of_decide_eq_false (ne_dot bytes '.' hmem) rfl
  simp [List.count_append, hnone]

/-- What is written of an object has no mark at its start. -/
theorem decodeText_stringify (fields : List (String × j.Value)) :
    decodeText j (encodeUtf8 (j.stringify (j.object fields))) = j.stringify (j.object fields) := by
  rw [decodeText, decodeUtf8_encodeUtf8]
  dsimp only
  split
  · rename_i rest hmark
    have hbrace := j.stringify_object fields
    rw [hmark] at hbrace
    exact absurd (Option.some.inj hbrace) (by decide)
  · rfl

/-- An empty secret is no key. -/
theorem verifyJwt_empty (ms : ℤ) (token : String) : verifyJwt sha j ms token "" = none := by
  rw [verifyJwt]
  split
  · exact if_pos rfl
  · rfl

section Read

variable {sha j} {payload : List (String × j.Value)} {secret : String} (hsecret : secret ≠ "")
include hsecret

/-- The answer to a token of a payload, whoever signed it. -/
theorem verifyJwt_token (ms : ℤ) (sig : Bytes) :
    verifyJwt sha j ms (jwtData j payload ++ "." ++ base64UrlEncode sig) secret =
      if sig ≠ mac sha secret (jwtData j payload) then none
      else (j.parse (j.stringify (j.object payload))).bind fun value =>
        (j.get value "exp").bind fun exp =>
          if exp.any fun e => j.isBelow e (ms / 1000) then none else some value := by
  rw [verifyJwt, jwtData, splitOnP_token]
  dsimp only
  rw [String.ofList_toList, String.ofList_toList, String.ofList_toList, if_neg hsecret,
    base64UrlDecode_base64UrlEncode, base64UrlDecode_base64UrlEncode]
  simp only [Option.bind_eq_bind, Option.bind_some, decodeText_stringify]

/-- **A signed payload is read until its `exp`.** -/
theorem verifyJwt_signed {exp : ℤ} (hround : j.parse (j.stringify (j.object payload)) =
    some (j.object payload)) (hexp : payload.lookup "exp" = some (j.number exp)) (ms : ℤ) :
    verifyJwt sha j ms (jwtData j payload ++ "." ++
        base64UrlEncode (mac sha secret (jwtData j payload))) secret =
      if exp < ms / 1000 then none else some (j.object payload) := by
  rw [verifyJwt_token hsecret, if_neg (not_not.mpr rfl), hround, Option.bind_some, j.get_object,
    Option.bind_some, hexp, Option.any_some, j.isBelow_number]
  simp only [decide_eq_true_eq]

end Read

section Payload

variable {V : Type} {payload : List (String × V)}

theorem assign_of_notMem {key : String} (h : key ∉ payload.map Prod.fst) (v : V) :
    assign payload key v = payload ++ [(key, v)] := if_neg h

/-- The times come last, in a payload that has none. -/
theorem assign_times (h : ∀ f ∈ payload, f.1 ≠ "iat" ∧ f.1 ≠ "exp") (iat exp : V) :
    assign (assign payload "iat" iat) "exp" exp = payload ++ [("iat", iat), ("exp", exp)] := by
  have hiat : "iat" ∉ payload.map Prod.fst := fun hmem => by
    obtain ⟨f, hf, heq⟩ := List.mem_map.mp hmem
    exact (h f hf).1 heq
  have hexp : "exp" ∉ (payload ++ [("iat", iat)]).map Prod.fst := fun hmem => by
    obtain ⟨f, hf, heq⟩ := List.mem_map.mp hmem
    rcases List.mem_append.mp hf with hf | hf
    · exact (h f hf).2 heq
    · rw [List.mem_singleton.mp hf] at heq
      exact absurd (show "iat" = "exp" from heq) (by decide)
  rw [assign_of_notMem hiat, assign_of_notMem hexp, List.append_assoc]
  rfl

theorem lookup_exp (h : ∀ f ∈ payload, f.1 ≠ "iat" ∧ f.1 ≠ "exp") (iat exp : V) :
    (payload ++ [("iat", iat), ("exp", exp)]).lookup "exp" = some exp := by
  have hnone : payload.lookup "exp" = none := List.lookup_eq_none_iff.mpr fun f hf =>
    bne_iff_ne.mpr (h f hf).2.symm
  rw [List.lookup_append, hnone]
  rfl

end Payload

/-- A payload with its times. -/
def withTimes (ms expiresInSeconds : ℤ) (payload : List (String × j.Value)) :
    List (String × j.Value) :=
  payload ++ [("iat", j.number (ms / 1000)), ("exp", j.number (ms / 1000 + expiresInSeconds))]

/-- What is written of a value is read back. -/
def Json.RoundTrips (value : j.Value) : Prop := j.parse (j.stringify value) = some value

/-- HMAC of the text is another under another secret. -/
def TellsApart (secret other data : String) : Prop :=
  mac sha other data = mac sha secret data → other = secret

theorem generateJwt_eq {payload : List (String × j.Value)}
    (h : ∀ f ∈ payload, f.1 ≠ "iat" ∧ f.1 ≠ "exp") (ms expiresInSeconds : ℤ) (secret : String) :
    generateJwt sha j ms payload secret expiresInSeconds =
      let data := jwtData j (withTimes j ms expiresInSeconds payload)
      if secret = "" then none
      else some (data ++ "." ++ base64UrlEncode (mac sha secret data)) := by
  rw [generateJwt, assign_times h, withTimes]

/-- **Bytes come back, and so do payloads, with their times, until their `exp`**; what another
secret has signed does not. -/
theorem jwt_roundTrip :
    (∀ bytes, base64UrlDecode (base64UrlEncode bytes) = some bytes) ∧
    ∀ (payload : List (String × j.Value)) (ms expiresInSeconds : ℤ),
      (∀ f ∈ payload, f.1 ≠ "iat" ∧ f.1 ≠ "exp") →
      j.RoundTrips (j.object (withTimes j ms expiresInSeconds payload)) →
      ∀ secret,
        (secret ≠ "" → (generateJwt sha j ms payload secret expiresInSeconds).isSome = true) ∧
        (∀ token, generateJwt sha j ms payload secret expiresInSeconds = some token →
          (∀ now, now / 1000 ≤ ms / 1000 + expiresInSeconds →
            verifyJwt sha j now token secret =
              some (j.object (withTimes j ms expiresInSeconds payload))) ∧
          ∀ now, ms / 1000 + expiresInSeconds < now / 1000 →
            verifyJwt sha j now token secret = none) ∧
        ∀ other token, other ≠ secret →
          TellsApart sha secret other (jwtData j (withTimes j ms expiresInSeconds payload)) →
          generateJwt sha j ms payload other expiresInSeconds = some token →
          ∀ now, verifyJwt sha j now token secret = none := by
  refine ⟨base64UrlDecode_base64UrlEncode, fun payload ms expiresInSeconds htimes hround secret =>
    ⟨fun hsecret => ?_, fun token htoken => ?_, fun other token hother hkey htoken now => ?_⟩⟩
  · rw [generateJwt_eq sha j htimes, if_neg hsecret, Option.isSome_some]
  · rw [generateJwt_eq sha j htimes] at htoken
    split at htoken
    · cases htoken
    rename_i hsecret
    obtain rfl := Option.some.inj htoken
    have hread (now : ℤ) : verifyJwt sha j now _ secret = _ :=
      verifyJwt_signed hsecret hround (lookup_exp htimes _ _) now
    refine ⟨fun now hnow => ?_, fun now hnow => ?_⟩
    · rw [hread, if_neg (not_lt.mpr hnow)]
    · rw [hread, if_pos hnow]
  · rw [generateJwt_eq sha j htimes] at htoken
    split at htoken
    · cases htoken
    obtain rfl := Option.some.inj htoken
    by_cases hsecret : secret = ""
    · rw [hsecret, verifyJwt_empty]
    · rw [verifyJwt_token hsecret, if_pos fun h => hother (hkey h)]

/-! ## A token -/

namespace Signed

def headerText : String := "\x7b\"alg\":\"HS256\",\"typ\":\"JWT\"\x7d"

def payloadText : String := "\x7b\"sub\":\"alice\",\"iat\":1700000000,\"exp\":1700000900\x7d"

def payload : List (String × JsonTree) :=
  [("sub", .value (.string "alice")), ("iat", .value (.number 1700000000)),
    ("exp", .value (.number 1700000900))]

/-- The two texts of a token; only the header has two fields. -/
def json : Json where
  Value := JsonTree
  text s := .value (.string s)
  number n := .value (.number n)
  object := .object
  get v key :=
    match v with
    | .value .null => none
    | v => some (v.get? key)
  isBelow v n :=
    match v with
    | .value (.number m) => decide (m < n)
    | _ => false
  stringify v :=
    match v with
    | .object [_, _] => headerText
    | _ => payloadText
  parse s := if s = payloadText then some (.object payload) else none
  lossy _ := ""
  get_object _ _ := rfl
  isBelow_number _ _ := rfl
  stringify_object fields := by
    split <;> decide

def secret : String := "test-secret-key-that-is-long-enough-for-hmac-sha256-algorithm!!"

/-- The digests that HMAC of the token takes, by the lengths of what is hashed. -/
def sha256 : Sha256 where
  digest data :=
    if data.length = 167 then
      [0x72, 0xed, 0xba, 0x6a, 0xb9, 0x5e, 0x6d, 0x16, 0xeb, 0x10, 0x76, 0x5d, 0xc0, 0xb5, 0x71,
        0x49, 0xcc, 0x9f, 0x94, 0xfe, 0xaf, 0x1b, 0xd7, 0xd5, 0x95, 0x5f, 0x59, 0xf4, 0x03, 0x23,
        0x54, 0xf7]
    else
      [0xbb, 0xde, 0x3a, 0x62, 0x0a, 0x43, 0xfb, 0xb6, 0xa0, 0x8e, 0x32, 0x5f, 0x63, 0x96, 0x1e,
        0x76, 0xd2, 0xf1, 0x2f, 0x25, 0x8a, 0xbd, 0x25, 0x1d, 0x6c, 0x90, 0x0f, 0x73, 0x42, 0xb6,
        0x7e, 0x6d]
  length_digest data := by split <;> rfl

/-- It is good for its last second, and not for the next. -/
theorem jwt_roundTrip_boundary :
    ((generateJwt sha256 json 1700000000123 [("sub", .value (.string "alice"))] secret 900).bind
      fun token => verifyJwt sha256 json 1700000900999 token secret) = some (.object payload) ∧
    ((generateJwt sha256 json 1700000000123 [("sub", .value (.string "alice"))] secret 900).bind
      fun token => verifyJwt sha256 json 1700000901000 token secret) = none := by
  have hround : json.RoundTrips
      (json.object (withTimes json 1700000000123 900 [("sub", .value (.string "alice"))])) :=
    show (if payloadText = payloadText then some (JsonTree.object payload) else none) = _ from
      if_pos rfl
  obtain ⟨hsome, hread, -⟩ := (jwt_roundTrip sha256 json).2 [("sub", .value (.string "alice"))]
    1700000000123 900 (by simp) hround secret
  obtain ⟨token, htoken⟩ := Option.isSome_iff_exists.mp (hsome (by decide))
  obtain ⟨hgood, hpast⟩ := hread token htoken
  rw [htoken, Option.bind_some, Option.bind_some]
  exact ⟨hgood _ (by decide), hpast _ (by decide)⟩

end Signed

end Pcos.Edge.Jwt
