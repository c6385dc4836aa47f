import ViewSchema.Path
import ViewSchema.Text.Quoted

/-!
The files a run can see. A machine is asked where a path leads, whether a file is there and what the
file holds, and it may refuse each of these. Which files, directories and links it has, which
directory is in use, what it refuses and which codecs it knows is all left open here. Reading opens
the file, decodes strictly and then turns every line break into a line feed.
-/

namespace ViewSchema

/-- What an operating system refuses. -/
inductive SystemFault where
  | missing (path : String)
  | denied (path : String)
  | other (message : String)
  deriving Repr, DecidableEq, Inhabited

/-- Why nothing can be asked of a path. -/
inductive PathFault where
  | system (fault : SystemFault)
  /-- The path itself is none that could be asked for: it holds a NUL, or a link leads back to
  itself. -/
  | improper (message : String)
  deriving Repr, DecidableEq, Inhabited

/-- Why bytes are no text. -/
inductive DecodeFault where
  | undecodable
  /-- The decoder gives up in another way than by pointing at bytes, as one does that finds no mark
  of the byte order. -/
  | miscoded (message : String)
  deriving Repr, DecidableEq, Inhabited

/-- Why a file gave no text. -/
inductive FileFault where
  | path (fault : PathFault)
  | decoding (fault : DecodeFault)
  | unknownEncoding
  deriving Repr, DecidableEq, Inhabited

/-- A fault that a run is prepared for: what the operating system refuses, and bytes that cannot be
decoded. -/
def FileFault.isForeseen : FileFault → Bool
  | .path (.system _) | .decoding .undecodable => true
  | .path (.improper _) | .decoding (.miscoded _) | .unknownEncoding => false

def SystemFault.message : SystemFault → String
  | .missing path => "[Errno 2] No such file or directory: " ++ Text.quotedString path
  | .denied path => "[Errno 13] Permission denied: " ++ Text.quotedString path
  | .other message => message

/-- The message of a fault. What bytes could not be decoded is not told. -/
def FileFault.message : FileFault → String
  | .path (.system fault) => fault.message
  | .path (.improper message) | .decoding (.miscoded message) => message
  | .decoding .undecodable => "<decode error>"
  | .unknownEncoding => "unknown encoding"

/-- What an open file holds. A text stands for its bytes in UTF-8. -/
inductive Content where
  | text (s : String)
  | bytes (bytes : List UInt8)
  /-- The file is open, but its bytes are not to be had. -/
  | broken (fault : SystemFault)
  deriving Repr, DecidableEq, Inhabited

/-- A way to read bytes. One that can read anything makes an empty text of no bytes. -/
structure Decoder where
  decode : List UInt8 → Except DecodeFault String
  decode_nil : ∀ bytes s, decode bytes = .ok s → decode [] = .ok ""

/-- An encoding of text as bytes. -/
inductive Codec where
  | utf8
  | latin1
  | ascii
  | other (decoder : Decoder)

/-- Bytes as characters of the same codes. -/
def latin1Text (bytes : List UInt8) : String :=
  String.ofList (bytes.map fun b => Char.ofNat b.toNat)

def areAscii (bytes : List UInt8) : Bool := bytes.all fun b => b.toNat < 0x80

namespace Codec

def decodeBytes (codec : Codec) (raw : List UInt8) : Except DecodeFault String :=
  match codec with
  | utf8 => (String.fromUTF8? ⟨raw.toArray⟩).elim (.error .undecodable) .ok
  | latin1 => .ok (latin1Text raw)
  | ascii => if areAscii raw then .ok (latin1Text raw) else .error .undecodable
  | other decoder => decoder.decode raw

/-- The text of an open file. A text in UTF-8 is not written out as bytes first. -/
def decode (codec : Codec) : Content → Except FileFault String
  | .broken fault => .error (.path (.system fault))
  | .bytes raw => (codec.decodeBytes raw).mapError .decoding
  | .text s =>
    match codec with
    | utf8 => .ok s
    | _ => (codec.decodeBytes s.toUTF8.toList).mapError .decoding

/-- The spelling by which encoding names are compared. -/
def canonicalName (name : String) : String :=
  String.ofList <| name.toList.map fun c =>
    if c == '_' || c == ' ' then '-'
    else if 'A' ≤ c && c ≤ 'Z' then Char.ofNat (c.toNat + 0x20)
    else c

/-- The codecs that are brought along, by their usual names. A machine may know others. -/
def builtin? (name : String) : Option Codec :=
  let canonical := canonicalName name
  if ["utf-8", "utf8", "utf", "u8", "cp65001"].contains canonical then some utf8
  else if ["latin-1", "latin1", "latin", "iso-8859-1", "iso8859-1", "8859", "cp819", "l1"].contains
      canonical then some latin1
  else if ["ascii", "us-ascii", "646"].contains canonical then some ascii
  else none

theorem builtin?_utf8 : builtin? "utf-8" = some utf8 := rfl

end Codec

/-- Every line break, written as a carriage return, a line feed or both, as a line feed. -/
def unifiedLines : List Char → List Char
  | [] => []
  | '\r' :: '\n' :: rest => '\n' :: unifiedLines rest
  | c :: rest => (if c == '\r' then '\n' else c) :: unifiedLines rest

/-- What a machine tells of its files. -/
structure Files where
  /-- Where a path leads once all links are followed; nothing needs to be there. -/
  resolve : Path → Except PathFault Location
  /-- There is a file at a path as it is written: also every directory on the way exists. -/
  isFile : Path → Except SystemFault Bool
  /-- Open the file at a path. -/
  content : Path → Except PathFault Content
  /-- The codec of a name, if there is one. -/
  codec? : String → Option Codec
  /-- Where files are. -/
  locations : List Location
  mem_locations : ∀ {p l}, resolve p = .ok l → isFile p = .ok true → l ∈ locations
  isNormal_resolve : ∀ {p l}, p.IsClean → resolve p = .ok l → l.IsNormal
  codec?_utf8 : codec? "utf-8" = some .utf8

namespace Files

def read (files : Files) (path : Path) (encoding : String) : Except FileFault String :=
  match files.content path with
  | .error fault => .error (.path fault)
  | .ok content =>
    match files.codec? encoding with
    | none => .error .unknownEncoding
    | some codec => (codec.decode content).map fun s => String.ofList (unifiedLines s.toList)

/-- A machine without links that has the contents at their locations and all directories there may
be, uses the root directory and refuses no path. Of two contents at one location the first
counts. -/
def ofContents (contents : List (Location × Content)) : Files where
  resolve p := .ok p.location
  isFile p := .ok (contents.lookup p.location).isSome
  content p :=
    match contents.lookup p.location with
    | none => .error (.system (.missing p.toString))
    | some content => .ok content
  codec? := Codec.builtin?
  locations := contents.map Prod.fst
  mem_locations := by
    rintro p _ ⟨⟩ hfile
    obtain ⟨content, hcontent⟩ := Option.isSome_iff_exists.mp (Except.ok.inj hfile)
    obtain ⟨before, after, rfl, -⟩ := List.lookup_eq_some_iff.mp hcontent
    simp
  isNormal_resolve := by
    rintro p _ hclean ⟨⟩
    exact hclean.isNormal_location
  codec?_utf8 := Codec.builtin?_utf8

/-- The files of a list of paths and contents. Of two entries at one location the later counts. -/
def ofPaths (entries : List (String × Content)) : Files :=
  ofContents (entries.map fun e => ((Path.ofString e.1).location, e.2)).reverse

end Files
end ViewSchema
