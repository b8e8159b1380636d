import PlaceholderIcons.Decimal.Integer
import PlaceholderIcons.Text.Utf8

/-!
What is to be generated: icons by raster target, size and label, in named sets.
A name that is not built in selects the icons of the default set.
-/

namespace PlaceholderIcons

/-- One icon to generate. -/
structure IconSpec where
  /-- The raster file that the icon stands in for. -/
  target : Bytes
  /-- Width and height in pixels. -/
  size : Int64
  label : Bytes

/-- Icons that are generated together, in this order. -/
structure IconSet where
  name : Bytes
  specs : List IconSpec

namespace IconSet

def defaultName : Bytes := utf8 "chrome-extension"

def chromeExtension : IconSet :=
  { name := defaultName
    specs :=
      [⟨utf8 "extension/icon128.png", 128, utf8 "SAS"⟩,
        ⟨utf8 "extension/icon48.png", 48, utf8 "SAS"⟩,
        ⟨utf8 "extension/icon16.png", 16, utf8 "S"⟩] }

def manifestV3 : IconSet :=
  { name := utf8 "mv3-full"
    specs :=
      [⟨utf8 "extension/icon128.png", 128, utf8 "SAS"⟩,
        ⟨utf8 "extension/icon48.png", 48, utf8 "SAS"⟩,
        ⟨utf8 "extension/icon32.png", 32, utf8 "SAS"⟩,
        ⟨utf8 "extension/icon16.png", 16, utf8 "S"⟩] }

/-- The built-in sets by increasing name. -/
def builtIn : List IconSet :=
  [chromeExtension, manifestV3]

def find? (name : Bytes) : Option IconSet :=
  builtIn.find? (·.name == name)

def isKnown (name : Bytes) : Bool :=
  (find? name).isSome

/-- The set of a name; an unknown name is kept on the default icons. -/
def named (name : Bytes) : IconSet :=
  (find? name).getD { chromeExtension with name := name }

def sizes (set : IconSet) : List Int64 :=
  set.specs.map (·.size)

/-- The sizes with a blank between neighbours. -/
def sizeList (set : IconSet) : Bytes :=
  Bytes.joinWith 0x20 (set.sizes.map Decimal.ofInt64)

end IconSet

end PlaceholderIcons
