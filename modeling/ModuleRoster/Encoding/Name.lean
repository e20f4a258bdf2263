import ModuleRoster.Encoding.Basic

/-!
# Encoding/Name — the names of the encodings

An encoding has a proper name and several other ones.  Names are compared in a normal form: letters
are small, and whatever stands between letters, digits and full stops counts as one underscore.  A
null character may stand nowhere.
-/

namespace ModuleRoster.Encoding

/-- May the character stand in the normal form of a name as it is? -/
def isNameChar (c : Char) : Bool := c.isAlphanum || c == '.'

/-- The normal form of a name, for a reader that has or has not (`begun`) met a name character and
whether it stands behind something else (`gap`). -/
def normalizeFrom (begun gap : Bool) : Text → Text
  | [] => []
  | c :: rest =>
      if isNameChar c then
        (if begun && gap then ['_'] else []) ++ c.toLower :: normalizeFrom true false rest
      else normalizeFrom begun true rest

/-- **The normal form of a name.** -/
def normalizeName (name : Text) : Text := normalizeFrom false false name

/-- The proper names. -/
def properNames : List (String × Encoding) :=
  [("ascii", .oneByte .ascii), ("latin_1", .oneByte .latin1), ("utf_8", .utf8 false),
    ("utf_8_sig", .utf8 true), ("utf_16", .utf16 .little true), ("utf_16_le", .utf16 .little false),
    ("utf_16_be", .utf16 .big false), ("utf_32", .utf32 .little true),
    ("utf_32_le", .utf32 .little false), ("utf_32_be", .utf32 .big false)]

/-- The other names. -/
def otherNames : List (List String × Encoding) :=
  [(["646", "ansi_x3.4_1968", "ansi_x3_4_1968", "ansi_x3.4_1986", "cp367", "csascii", "ibm367",
      "iso646_us", "iso_646.irv_1991", "iso_ir_6", "us", "us_ascii"], .oneByte .ascii),
    (["8859", "cp819", "csisolatin1", "ibm819", "iso8859", "iso8859_1", "iso_8859_1",
      "iso_8859_1_1987", "iso_ir_100", "l1", "latin", "latin1"], .oneByte .latin1),
    (["cp65001", "u8", "utf", "utf8", "utf8_ucs2", "utf8_ucs4"], .utf8 false),
    (["u16", "utf16"], .utf16 .little true),
    (["unicodelittleunmarked", "utf_16le"], .utf16 .little false),
    (["unicodebigunmarked", "utf_16be"], .utf16 .big false),
    (["u32", "utf32"], .utf32 .little true),
    (["utf_32le"], .utf32 .little false),
    (["utf_32be"], .utf32 .big false)]

/-- The encoding that has the proper name `name`. -/
def ofProperName? (name : Text) : Option Encoding :=
  (properNames.find? fun e => e.1.toList == name).map Prod.snd

/-- The encoding that has `name` among its other names. -/
def ofOtherName? (name : Text) : Option Encoding :=
  (otherNames.find? fun e => e.1.any fun n => n.toList == name).map Prod.snd

/-- **The encoding of a name, if it names one.**  A full stop in one of the other names may also be
an underscore; in a proper name it may not. -/
def ofName? (name : Text) : Option Encoding :=
  if '\x00' ∈ name then none
  else
    let n := normalizeName name
    (ofOtherName? n).or <|
      (ofOtherName? (n.map fun c => if c = '.' then '_' else c)).or (ofProperName? n)

end ModuleRoster.Encoding
