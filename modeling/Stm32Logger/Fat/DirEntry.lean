import Stm32Logger.Fat.Core
import Stm32Logger.Printf

/-!
# `direntry.c`

Directory entries, short and long: reading the next one, looking a name up,
and finding room for new ones. A name is the bytes of a C string.
-/

namespace Stm32Logger

def attrVolumeId : Nat := 0x08
def attrDirectory : Nat := 0x10
def attrArchive : Nat := 0x20
def attrLongName : Nat := 0x0F

def lastLongEntry : Nat := 0x40

/-- What a loop over a directory gets for fuel: more than the entries of any
directory, which has fewer than 2^28 clusters of at most 2^11 entries. -/
def scanLimit : Nat := 2 ^ 40

def toupper (c : UInt8) : UInt8 := if 97 ≤ c ∧ c ≤ 122 then c - 32 else c

def tolower (c : UInt8) : UInt8 := if 65 ≤ c ∧ c ≤ 90 then c + 32 else c

def structOf (bs : List UInt8) : Sector := fun i => bs.getD i 0

def fatDirentChksum (dosname : Sector) : Nat :=
  (List.range 11).foldl
    (fun sum i => u8 ((if sum % 2 = 1 then 0x80 else 0) + sum / 2 + (dosname i).toNat)) 0

inductive AsciiResult where
  | terminated
  | inputEnd
  | notAscii
  deriving DecidableEq

/-- `ascii_from_utf16` into `d_name` from index `i`; a store outside `d_name` is a fault. -/
def asciiFromUtf16 : List Nat → Int → Sector → FatM (AsciiResult × Sector)
  | [], _, dName => pure (.inputEnd, dName)
  | tmp :: units, i, dName =>
    if tmp > 127 then pure (.notAscii, dName)
    else if i < 0 ∨ 255 < i then throw .outOfBounds
    else
      let dName := put8 i.toNat tmp dName
      if tmp = 0 then pure (.terminated, dName) else asciiFromUtf16 units (i + 1) dName

def ldirentName1 (e : Sector) : List Nat := (List.range 5).map fun j => le16 e (1 + 2 * j)
def ldirentName2 (e : Sector) : List Nat := (List.range 6).map fun j => le16 e (14 + 2 * j)
def ldirentName3 (e : Sector) : List Nat := (List.range 2).map fun j => le16 e (28 + 2 * j)

/-- A long entry met by `fat_readdir`, with the checksum and the name so far;
`none` is the checksum -1 of an abandoned name. -/
def longEntry (e : Sector) (csum : Option Nat) (dName : Sector) : FatM (Option Nat × Sector) := do
  let ord := (e 0).toNat
  let checksum := (e 13).toNat
  let isLast := ord / lastLongEntry % 2 = 1
  let dName := if isLast then fun _ => 0 else dName
  let csum := if isLast then some checksum else csum
  let csum := if csum ≠ some checksum then none else csum
  let i : Int := ((ord % 64 : Nat) - 1) * 13
  let (res, dName) ← asciiFromUtf16 (ldirentName1 e) i dName
  if res = .terminated then pure (csum, dName)
  else
    let csum := if res = .notAscii then none else csum
    let (res, dName) ← asciiFromUtf16 (ldirentName2 e) (i + 5) dName
    if res = .terminated then pure (csum, dName)
    else
      let csum := if res = .notAscii then none else csum
      let (res, dName) ← asciiFromUtf16 (ldirentName3 e) (i + 11) dName
      pure (if res = .notAscii then none else csum, dName)

/-- `while((name[++i] == ' ') && (i < 11))`, for `n = 11 - i`; `name[11]` is the attribute. -/
def skipSpaces (e : Sector) : Nat → Nat → Nat
  | 0, i => i + 1
  | n + 1, i => if e (i + 1) = 32 ∧ i + 1 < 11 then skipSpaces e n (i + 1) else i + 1

/-- The name `fat_readdir` makes of a short entry, character by character; the
character that ends a run of spaces is lost. -/
def shortChars (e : Sector) : Nat → Nat → List UInt8
  | 0, _ => []
  | n + 1, i =>
    if i < 11 then
      if e i = 32 then 46 :: shortChars e n (skipSpaces e (11 - i) i + 1)
      else tolower (e i) :: shortChars e n (i + 1)
    else []

def cString (chars : List UInt8) : List UInt8 := chars.takeWhile (· ≠ 0)

def shortDName (e : Sector) : List UInt8 :=
  let chars := shortChars e 11 0
  cString (if chars.getLast? = some 46 then chars.dropLast else chars)

structure Dirent where
  dName : List UInt8
  fatAttr : Nat
  fatSname : List UInt8
  deriving DecidableEq

def shortEntry (e : Sector) (csum : Option Nat) (dName : Sector) : Dirent :=
  let long := cString (bytesAt dName 0 256)
  { dName := if csum ≠ some (fatDirentChksum e) ∨ long = [] then shortDName e else long
    fatAttr := (e 11).toNat
    fatSname := bytesAt e 0 11 }

def readdirLoop (r : HandleRef) : Nat → Option Nat → Sector → FatM (Option Dirent)
  | 0, _, _ => throw .noReturn
  | fuel + 1, csum, dName => do
    let bs := (← fatRead r 32).getD []
    if bs.length ≠ 32 then pure none
    else
      let e := structOf bs
      if e 0 = 0 then pure none
      else if e 0 = 0xE5 then readdirLoop r fuel csum dName
      else if (e 11).toNat = attrVolumeId then readdirLoop r fuel csum dName
      else if (e 11).toNat = attrLongName then
        let (csum, dName) ← longEntry e csum dName
        readdirLoop r fuel csum dName
      else pure (some (shortEntry e csum dName))

/-- The next entry, or `none` for -1. `d_name` comes uninitialised, but a
checksum is only ever set together with clearing it. -/
def fatReaddir (r : HandleRef) : FatM (Option Dirent) := readdirLoop r scanLimit none fun _ => 0

/-- The loop of `_fat_dir_seek_empty`: `i` deleted entries in a row, `pos` after the last live one. -/
def seekEmptyLoop (r : HandleRef) (entries : Nat) : Nat → Nat → Nat → FatM Nat
  | 0, _, _ => throw .noReturn
  | fuel + 1, i, pos => do
    let bs := (← fatRead r 32).getD []
    if bs.length ≠ 32 then pure pos
    else
      let e := structOf bs
      if e 0 = 0 then pure pos
      else if e 0 = 0xE5 then
        if i + 1 = entries then pure pos else seekEmptyLoop r entries fuel (i + 1) pos
      else seekEmptyLoop r entries fuel 0 (← getHandle r).position

def fatDirSeekEmpty (r : HandleRef) (entries : Nat) : FatM Unit := do
  let _ ← fatLseek r 0 .set
  let pos ← seekEmptyLoop r entries scanLimit 0 0
  let _ ← fatLseek r (i32 pos) .set

/-- The loop of `fat_comparesfn` for `n = 11 - i`: the canonical name, and what is left of `name`.
A name that ends in its dot is read past its end there; here it ends with the NUL. -/
def canonLoop : Nat → Nat → List UInt8 → List UInt8 × List UInt8
  | 0, _, name => ([], name)
  | n + 1, i, name =>
    match name with
    | [] => (List.replicate (n + 1) 32, [])
    | c :: rest =>
      if c = 47 then (List.replicate (n + 1) 32, name)
      else if c = 46 ∧ i < 8 then
        let (canon, left) := canonLoop n (i + 1) name
        (32 :: canon, left)
      else if c = 46 ∧ i = 8 then
        match rest with
        | [] => (0 :: List.replicate n 32, [])
        | d :: rest =>
          let (canon, left) := canonLoop n (i + 1) rest
          (toupper d :: canon, left)
      else
        let (canon, left) := canonLoop n (i + 1) rest
        (toupper c :: canon, left)

def fatComparesfn (name fatname : List UInt8) : Bool :=
  if name.head? = some 46 then (name ++ List.replicate (11 - name.length) 32).take 11 = fatname
  else
    let (canon, left) := canonLoop 11 0 name
    (left = [] ∨ left.head? = some 47) ∧ canon = fatname

def openLoop (name : List UInt8) (flags : Nat) (dst : HandleRef) : Nat → FatM Int
  | 0 => throw .noReturn
  | fuel + 1 => do
    match ← fatReaddir .cwd with
    | none => pure (-2)
    | some dirent =>
      if name = dirent.dName ∨ fatComparesfn name dirent.fatSname then
        -- back over the entry, to read it again
        let _ ← fatLseek .cwd (-32) .cur
        let dir ← getHandle .cwd
        let v ← fatOf dir
        let (sector, offset) := fatFileSectorOffset v dir
        let bs := (← fatRead .cwd 32).getD []
        if bs.length ≠ 32 then pure minusEIO
        else
          let fatent := structOf bs
          fatFileInit (← getHandle .cwd).fat fatent dst
          modifyHandle dst fun h => { h with flags }
          if (fatent 11).toNat / attrDirectory % 2 = 0 then
            modifyHandle dst fun h => { h with direntSector := sector, direntOffset := offset }
            pure 0
          else
            if (← getHandle dst).firstCluster = 0 then fatFileRoot dst
            pure 0
      else openLoop name flags dst fuel

def fatOpen (name : List UInt8) (flags : Nat) (dst : HandleRef) : FatM Int := do
  if name = [46] then
    setHandle dst (← getHandle .cwd)
    pure 0
  else
    let _ ← fatLseek .cwd 0 .set
    openLoop name flags dst scanLimit

def fatChdir (name : List UInt8) : FatM Int := fatOpen name 0 .cwd

end Stm32Logger
