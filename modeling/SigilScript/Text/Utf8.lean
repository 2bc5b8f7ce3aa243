import SigilScript.Text.Quoted

/-!
UTF-8. Encoding refuses surrogates; decoding accepts exactly the shortest forms of the code points
that are not surrogates. Both say where they stopped and why. Names of files may be any bytes: in
them the surrogates U+DC80 to U+DCFF stand for the bytes that are not part of a code point.
-/
namespace SigilScript.Utf8

/-- A run of surrogates at `position`, the first of them `point`. -/
structure EncodeError where
  position : Nat
  length : Nat
  point : CodePoint
  deriving DecidableEq, Repr

def EncodeError.message (e : EncodeError) : String :=
  if e.length = 1 then
    s!"'utf-8' codec can't encode character '{e.point.escape}' in position {e.position}: " ++
      "surrogates not allowed"
  else
    s!"'utf-8' codec can't encode characters in position " ++
      s!"{e.position}-{e.position + e.length - 1}: surrogates not allowed"

inductive Reason where
  | invalidStart | invalidContinuation | unexpectedEnd
  deriving DecidableEq, Repr

def Reason.message : Reason → String
  | .invalidStart => "invalid start byte"
  | .invalidContinuation => "invalid continuation byte"
  | .unexpectedEnd => "unexpected end of data"

/-- The bytes that cannot be read: `length` of them from `position`, the first of them `byte`. -/
structure DecodeError where
  position : Nat
  length : Nat
  byte : UInt8
  reason : Reason
  deriving DecidableEq, Repr

def DecodeError.message (e : DecodeError) : String :=
  if e.length = 1 then
    s!"'utf-8' codec can't decode byte 0x{String.ofList (hexDigits 2 e.byte.toNat)} " ++
      s!"in position {e.position}: {e.reason.message}"
  else
    s!"'utf-8' codec can't decode bytes in position {e.position}-{e.position + e.length - 1}: " ++
      e.reason.message

def encodePoint (c : CodePoint) : List UInt8 :=
  let n := c.val
  if n < 0x80 then [n.toUInt8]
  else if n < 0x800 then [(0xc0 + n / 64).toUInt8, (0x80 + n % 64).toUInt8]
  else if n < 0x10000 then
    [(0xe0 + n / 4096).toUInt8, (0x80 + n / 64 % 64).toUInt8, (0x80 + n % 64).toUInt8]
  else
    [(0xf0 + n / 262144).toUInt8, (0x80 + n / 4096 % 64).toUInt8, (0x80 + n / 64 % 64).toUInt8,
      (0x80 + n % 64).toUInt8]

/-- The error at the first point that is refused; it goes on to the end of its run of
surrogates. -/
def refusal? (refused : CodePoint → Bool) (t : Text) : Option EncodeError :=
  match t.findIdx? refused with
  | none => none
  | some position =>
    let run := (t.drop position).takeWhile CodePoint.isSurrogate
    some ⟨position, run.length, run.headD default⟩

def encode (t : Text) : Except EncodeError (List UInt8) :=
  match refusal? CodePoint.isSurrogate t with
  | none => .ok (t.flatMap encodePoint)
  | some e => .error e

/-- The byte that a surrogate stands for in a name. -/
def byte? (c : CodePoint) : Option UInt8 :=
  if 0xdc80 ≤ c.val ∧ c.val ≤ 0xdcff then some (c.val - 0xdc00).toUInt8 else none

def encodeNamePoint (c : CodePoint) : List UInt8 :=
  match byte? c with
  | some b => [b]
  | none => encodePoint c

/-- The bytes of a name; surrogates that stand for no byte are refused. -/
def encodeName (t : Text) : Except EncodeError (List UInt8) :=
  match refusal? (fun c => c.isSurrogate && (byte? c).isNone) t with
  | none => .ok (t.flatMap encodeNamePoint)
  | some e => .error e

/-- What a first byte promises: how many bytes follow, the bounds of the next one, and its own
share of the code point. -/
structure Lead where
  following : Nat
  low : Nat
  high : Nat
  bits : Nat
  deriving DecidableEq, Repr

def Lead.of? (byte : UInt8) : Option Lead :=
  let b := byte.toNat
  if b < 0xc2 then none
  else if b < 0xe0 then some ⟨1, 0x80, 0xbf, b - 0xc0⟩
  else if b = 0xe0 then some ⟨2, 0xa0, 0xbf, 0⟩
  else if b = 0xed then some ⟨2, 0x80, 0x9f, 0xd⟩
  else if b < 0xf0 then some ⟨2, 0x80, 0xbf, b - 0xe0⟩
  else if b = 0xf0 then some ⟨3, 0x90, 0xbf, 0⟩
  else if b < 0xf4 then some ⟨3, 0x80, 0xbf, b - 0xf0⟩
  else if b = 0xf4 then some ⟨3, 0x80, 0x8f, 4⟩
  else none

/-- Reads the following bytes; a refusal gives the number of bytes that were fine. -/
def follow : Nat → Nat → Nat → Nat → List UInt8 → Except (Nat × Reason) (Nat × List UInt8)
  | 0, _, _, bits, rest => .ok (bits, rest)
  | _ + 1, _, _, _, [] => .error (0, .unexpectedEnd)
  | k + 1, low, high, bits, b :: rest =>
    if low ≤ b.toNat ∧ b.toNat ≤ high then
      match follow k 0x80 0xbf (bits * 64 + (b.toNat - 0x80)) rest with
      | .ok r => .ok r
      | .error (n, reason) => .error (n + 1, reason)
    else .error (0, .invalidContinuation)

theorem follow_length {k low high bits : Nat} {l : List UInt8} {p : Nat × List UInt8}
    (h : follow k low high bits l = .ok p) : p.2.length ≤ l.length := by
  induction k generalizing low high bits l with
  | zero => simp only [follow, Except.ok.injEq] at h; subst h; exact Nat.le_refl _
  | succ k ih =>
    cases l with
    | nil => simp [follow] at h
    | cons b rest =>
      simp only [follow] at h
      split at h
      · split at h
        · rename_i r hr
          simp only [Except.ok.injEq] at h
          subst h
          have := ih hr
          simp only [List.length_cons]
          omega
        · simp at h
      · simp at h

/-- Decodes bytes that start at `position` of the whole. -/
def decodeFrom (position : Nat) (bytes : List UInt8) : Except DecodeError Text :=
  match bytes with
  | [] => .ok []
  | b :: rest =>
    if b.toNat < 0x80 then
      (decodeFrom (position + 1) rest).map (CodePoint.ofNat b.toNat :: ·)
    else
      match Lead.of? b with
      | none => .error ⟨position, 1, b, .invalidStart⟩
      | some lead =>
        match h : follow lead.following lead.low lead.high lead.bits rest with
        | .error (n, reason) => .error ⟨position, n + 1, b, reason⟩
        | .ok (point, rest') =>
          have : rest'.length ≤ rest.length := follow_length h
          (decodeFrom (position + 1 + lead.following) rest').map (CodePoint.ofNat point :: ·)
termination_by bytes.length

def decode (bytes : List UInt8) : Except DecodeError Text := decodeFrom 0 bytes

/-- What stands for a byte in a name. -/
def standIn (b : UInt8) : CodePoint := CodePoint.ofNat (0xdc00 + b.toNat)

/-- The name that bytes spell: their code points, and stand-ins for the bytes that are part of
none. -/
def decodeName (bytes : List UInt8) : Text :=
  match bytes with
  | [] => []
  | b :: rest =>
    if b.toNat < 0x80 then CodePoint.ofNat b.toNat :: decodeName rest
    else
      match Lead.of? b with
      | none => standIn b :: decodeName rest
      | some lead =>
        match h : follow lead.following lead.low lead.high lead.bits rest with
        | .error _ => standIn b :: decodeName rest
        | .ok (point, rest') =>
          have : rest'.length ≤ rest.length := follow_length h
          CodePoint.ofNat point :: decodeName rest'
termination_by bytes.length

end SigilScript.Utf8

namespace SigilScript.Text

/-- Every line end (`CR LF` or a lone `CR`) becomes one `LF`. -/
def normalizeNewlines : Text → Text
  | [] => []
  | c :: rest =>
    if c = '\r' then
      if rest.head? = some ('\n' : CodePoint) then normalizeNewlines rest else '\n' :: normalizeNewlines rest
    else c :: normalizeNewlines rest

end SigilScript.Text
