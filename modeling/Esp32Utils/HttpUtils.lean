import Esp32Utils.StdString

/-! # Taking URLs apart

The four functions search for the same markers on their own. Positions are `size_t`, kept
in `int` variables; `none` is an exception of `substr`. -/
namespace HttpUtils

open ByteStrings FirstOccurrence StdString

structure StringUtils where
  containsSpace : Bytes → Bool
  caseInsEquals : Bytes → Bytes → Bool

def space : UInt8 := 0x20

def asciiLower (b : UInt8) : UInt8 := if 0x41 ≤ b ∧ b ≤ 0x5A then b + 0x20 else b

structure StringUtils.Documented (lib : StringUtils) : Prop where
  containsSpace_iff : ∀ s, lib.containsSpace s = true ↔ space ∈ s
  caseInsEquals_iff : ∀ s t,
    lib.caseInsEquals s t = true ↔ s.map asciiLower = t.map asciiLower

def protocolMarker : Bytes := ascii "://"

def slash : UInt8 := 0x2F

def getProtocolIndex (str : Bytes) : ℕ := find str protocolMarker 0

def isUrlCorrect (lib : StringUtils) (url : Bytes) : Option Bool := do
  let length := url.length
  if length = 0 then
    return false
  if lib.containsSpace url = true then
    return false
  let protocolIndex := toInt (getProtocolIndex url)
  let protocolSubStrLength := toInt protocolMarker.length
  if protocolIndex < 0 then
    return false
  let protocol ← substr url 0 (toSize protocolIndex)
  if lib.caseInsEquals protocol (ascii "http") = false ∧
      lib.caseInsEquals protocol (ascii "https") = false then
    return false
  let slashIndex := toInt (find url [slash] (toSize (protocolIndex + protocolSubStrLength)))
  let hostLength := if slashIndex > 0 then slashIndex - (protocolIndex + protocolSubStrLength)
    else toInt (toSize (length - (protocolIndex + protocolSubStrLength)))
  if hostLength ≤ 0 then
    return false
  return true

/-- The result and the output string after the call. -/
def trimHostFromUrl (lib : StringUtils) (url out : Bytes) : Option (Bool × Bytes) := do
  if (← isUrlCorrect lib url) = false then
    return (false, out)
  let protocolIndex := toInt (getProtocolIndex url)
  let protocolSubStrLength := toInt protocolMarker.length
  let slashIndex := toInt (find url [slash] (toSize (protocolIndex + protocolSubStrLength)))
  if -1 = slashIndex then
    return (true, [slash])
  return (true, ← substr url (toSize slashIndex) npos)

def getHostFromUrl (lib : StringUtils) (url out : Bytes) : Option (Bool × Bytes) := do
  if (← isUrlCorrect lib url) = false then
    return (false, out)
  let protocolIndex := toInt (getProtocolIndex url)
  let protocolSubStrLength := toInt protocolMarker.length
  let slashIndex := toInt (find url [slash] (toSize (protocolIndex + protocolSubStrLength)))
  if slashIndex ≥ 0 then
    let hostLength := slashIndex - (protocolIndex + protocolSubStrLength)
    return (true, ← substr url (toSize (protocolIndex + protocolSubStrLength)) (toSize hostLength))
  return (true, ← substr url (toSize (protocolIndex + protocolSubStrLength)) npos)

def getProtocolFromUrl (url out : Bytes) : Option (Bool × Bytes) := do
  let protocolIndex := getProtocolIndex url
  if npos = protocolIndex then
    return (false, out)
  return (true, ← substr url 0 protocolIndex)

end HttpUtils
