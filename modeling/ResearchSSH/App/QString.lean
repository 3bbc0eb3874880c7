/-
  ResearchSSH.App.QString — the strings of the UI side, and how they cross to the core.

  A `QString` is a list of UTF-16 code units; a QML string is the same.  The core's strings are
  lists of Unicode scalar values.  A string crosses to the core as a NUL-terminated UTF-8 buffer
  (`toUtf8().constData()`), so what stands behind a NUL is lost on the way, and a lone surrogate
  arrives as a question mark.

  Lower-casing is that of the letters A to Z: the program lower-cases only what it then compares
  with ASCII names in which no letter is the lower case of a letter outside of ASCII.
-/

import Mathlib.Data.List.DropRight
import Mathlib.Data.List.Sort
import ResearchSSH.Core.Event
import ResearchSSH.Library.Cells

namespace ResearchSSH.App

open ResearchSSH.Core

/-- A UTF-16 code unit of a `QString`. -/
abbrev QChar := UInt16

/-- `QString`: a list of UTF-16 code units. -/
abbrev QString := List QChar

/-! ## §1. Literals and conversions. -/

/-- The units of a scalar value. -/
def utf16 (c : Char) : QString :=
  if c.toNat < 0x10000 then [c.toNat.toUInt16]
  else [(0xd800 + (c.toNat - 0x10000) / 0x400).toUInt16,
        (0xdc00 + (c.toNat - 0x10000) % 0x400).toUInt16]

/-- `QStringLiteral`. -/
def lit (s : String) : QString := s.toList.flatMap utf16

/-- `QString::number`. -/
def number (n : Nat) : QString := lit (toString n)

/-- The first half of a pair. -/
def isHighSurrogate (u : QChar) : Bool := 0xd800 ≤ u && u < 0xdc00

/-- The second half of a pair. -/
def isLowSurrogate (u : QChar) : Bool := 0xdc00 ≤ u && u < 0xe000

/-- One unit on its own. -/
def scalarOf (u : QChar) : Char :=
  if isHighSurrogate u || isLowSurrogate u then '?' else Char.ofNat u.toNat

/-- The scalar values that `toUtf8` encodes. -/
def toUnicode : QString → List Char
  | [] => []
  | [u] => [scalarOf u]
  | u :: v :: rest =>
    if isHighSurrogate u && isLowSurrogate v then
      Char.ofNat (0x10000 + (u.toNat - 0xd800) * 0x400 + (v.toNat - 0xdc00)) :: toUnicode rest
    else scalarOf u :: toUnicode (v :: rest)

/-- `QString::toUtf8`. -/
def toUtf8 (s : QString) : List UInt8 := (toUnicode s).flatMap String.utf8EncodeChar

/-- What the core reads of a string: `toUtf8().constData()`, up to the first NUL. -/
def toCore (s : QString) : Text := (toUnicode s).takeWhile (· ≠ '\x00')

/-- One step of Qt's UTF-8 decoder at a lead byte. -/
inductive Utf8Step
  /-- A scalar value, with the number of bytes it takes after the lead byte. -/
  | scalar (code : Nat) (more : Nat)
  | endOfString
  | invalid

/-- A byte that no UTF-8 sequence begins with. -/
def isContinuation (b : UInt8) : Bool := b &&& 0xc0 == 0x80

/-- `QUtf8Functions::fromUtf8` at the lead byte `b`, with `rest` behind it. -/
def utf8Step (b : UInt8) (rest : List UInt8) : Utf8Step :=
  let sequence (need least lead : Nat) : Utf8Step :=
    if rest.length < need then
      if rest.all isContinuation then .endOfString else .invalid
    else
      let tail := rest.take need
      let code := tail.foldl (fun code t => code * 0x40 + (t &&& 0x3f).toNat) lead
      if tail.all isContinuation && least ≤ code && code ≤ 0x10ffff
          && !(0xd800 ≤ code && code < 0xe000)
        then .scalar code need else .invalid
  if b < 0x80 then .scalar b.toNat 0
  else if b ≤ 0xc1 then .invalid
  else if b < 0xe0 then sequence 1 0x80 (b &&& 0x1f).toNat
  else if b < 0xf0 then sequence 2 0x800 (b &&& 0x0f).toNat
  else if b < 0xf5 then sequence 3 0x10000 (b &&& 0x07).toNat
  else .invalid

/-- The decoder's loop, with `skip` bytes already taken. -/
def decodeUtf8 : Nat → List UInt8 → QString
  | _, [] => []
  | skip + 1, _ :: rest => decodeUtf8 skip rest
  | 0, b :: rest =>
    match utf8Step b rest with
    | .scalar code more => utf16 (Char.ofNat code) ++ decodeUtf8 more rest
    | _ => 0xfffd :: decodeUtf8 0 rest

/-- `QString::fromUtf8`: an initial byte order mark is dropped, and a byte that begins no
scalar value is replaced. -/
def fromUtf8 (bytes : List UInt8) : QString :=
  decodeUtf8 0 (if [0xef, 0xbb, 0xbf].isPrefixOf bytes then bytes.drop 3 else bytes)

/-- `QStringDecoder::hasError` after `bytes`: a sequence cut by the end is not an error. -/
def hasUtf8Error : Nat → List UInt8 → Bool
  | _, [] => false
  | skip + 1, _ :: rest => hasUtf8Error skip rest
  | 0, b :: rest =>
    match utf8Step b rest with
    | .scalar _ more => hasUtf8Error more rest
    | .endOfString => false
    | .invalid => true

/-! ## §2. Spaces and letters. -/

/-- The space separators of Unicode. -/
def isSeparatorSpace (u : QChar) : Bool :=
  u == 0x20 || u == 0xa0 || u == 0x1680 || (0x2000 ≤ u && u ≤ 0x200a) || u == 0x202f
    || u == 0x205f || u == 0x3000

/-- `QChar::isSpace`. -/
def isSpace (u : QChar) : Bool :=
  (9 ≤ u && u ≤ 0xd) || u == 0x85 || u == 0x2028 || u == 0x2029 || isSeparatorSpace u

/-- The white space and line ends of ECMAScript. -/
def isJsSpace (u : QChar) : Bool :=
  (9 ≤ u && u ≤ 0xd) || u == 0xfeff || u == 0x2028 || u == 0x2029 || isSeparatorSpace u

/-- `QString::trimmed`. -/
def trimmed (s : QString) : QString := (s.dropWhile isSpace).rdropWhile isSpace

/-- What is trimmed has nothing to trim. -/
theorem trimmed_trimmed (s : QString) : trimmed (trimmed s) = trimmed s :=
  Library.trim_trim s

/-- `String.prototype.trim`. -/
def jsTrim (s : QString) : QString := (s.dropWhile isJsSpace).rdropWhile isJsSpace

/-- `QString::toLower`. -/
def toLower (s : QString) : QString := s.map fun u => if 0x41 ≤ u && u ≤ 0x5a then u + 0x20 else u

/-! ## §3. Searching and cutting. -/

/-- `startsWith`. -/
def startsWith (s start : QString) : Bool := start.isPrefixOf s

/-- `endsWith`. -/
def endsWith (s ending : QString) : Bool := ending.isSuffixOf s

/-- `QString::lastIndexOf` of a unit; `none` for -1. -/
def lastIndexOf (s : QString) (u : QChar) : Option Nat :=
  (s.reverse.findIdx? (· == u)).map fun i => s.length - 1 - i

/-- `QString::indexOf`; `none` for -1. -/
def indexOf (s needle : QString) : Option Nat := s.tails.findIdx? needle.isPrefixOf

/-- `split(QRegularExpression("[\\r\\n]+"), Qt::SkipEmptyParts)`. -/
def splitLines (s : QString) : List QString :=
  (s.splitOnP fun u => u == 0x0d || u == 0x0a).filter (· ≠ [])

/-- `QStringList::join`. -/
def join (parts : List QString) (separator : QString) : QString := separator.intercalate parts

/-! ## §4. Place markers. -/

/-- The value of an ASCII digit. -/
def digitOf (u : QChar) : Option Nat :=
  if 0x30 ≤ u && u ≤ 0x39 then some (u.toNat - 0x30) else none

/-- The number of a place marker behind its `%`, with the number of units it takes: an optional
`L` and one or two digits. -/
def placeMarker (rest : QString) : Option (Nat × Nat) :=
  let l := if rest.head? = some 0x4c then 1 else 0
  match rest.drop l with
  | [] => none
  | d :: more =>
    match digitOf d, more.head?.bind digitOf with
    | some m, some n => some (10 * m + n, l + 2)
    | some m, none => some (m, l + 1)
    | none, _ => none

/-- The text cut into units and place markers (with how they are written), `skip` units already
taken. -/
def argPieces : Nat → QString → List (Option Nat × QString)
  | _, [] => []
  | skip + 1, _ :: rest => argPieces skip rest
  | 0, u :: rest =>
    match (if u = 0x25 then placeMarker rest else none) with
    | some (n, size) => (some n, u :: rest.take size) :: argPieces size rest
    | none => (none, [u]) :: argPieces 0 rest

/-- `QString::arg` with one or several arguments: the marker with the lowest number stands for
the first argument, the next one for the second, and so on; a marker beyond the arguments stays
as it is written. -/
def arg (text : QString) (args : List QString) : QString :=
  let pieces := argPieces 0 text
  let numbers := (pieces.filterMap Prod.fst).dedup.insertionSort (· ≤ ·)
  pieces.flatMap fun (marker, written) =>
    match marker with
    | none => written
    | some n => (args[numbers.idxOf n]?).getD written

example : arg (lit "%1@%2:%3") [lit "u", lit "h"] = lit "u@h:%3" := by decide

end ResearchSSH.App
