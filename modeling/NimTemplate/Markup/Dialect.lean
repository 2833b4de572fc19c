/-! The dialect of markup that a doctype selects. -/

namespace NimTemplate.Markup

/-- Doctypes that have a name of their own. -/
def doctypes : List (String × String) := [
  ("default", "<!DOCTYPE html>"),
  ("xml", "<?xml version=\"1.0\" encoding=\"utf-8\" ?>"),
  ("transitional", "<!DOCTYPE html PUBLIC \"-//W3C//DTD XHTML 1.0 Transitional//EN\" \"http://www.w3.org/TR/xhtml1/DTD/xhtml1-transitional.dtd\">"),
  ("strict", "<!DOCTYPE html PUBLIC \"-//W3C//DTD XHTML 1.0 Strict//EN\" \"http://www.w3.org/TR/xhtml1/DTD/xhtml1-strict.dtd\">"),
  ("frameset", "<!DOCTYPE html PUBLIC \"-//W3C//DTD XHTML 1.0 Frameset//EN\" \"http://www.w3.org/TR/xhtml1/DTD/xhtml1-frameset.dtd\">"),
  ("1.1", "<!DOCTYPE html PUBLIC \"-//W3C//DTD XHTML 1.1//EN\" \"http://www.w3.org/TR/xhtml11/DTD/xhtml11.dtd\">"),
  ("basic", "<!DOCTYPE html PUBLIC \"-//W3C//DTD XHTML Basic 1.1//EN\" \"http://www.w3.org/TR/xhtml-basic/xhtml-basic11.dtd\">"),
  ("mobile", "<!DOCTYPE html PUBLIC \"-//WAPFORUM//DTD XHTML Mobile 1.2//EN\" \"http://www.openmobilealliance.org/tech/DTD/xhtml-mobile12.dtd\">"),
  ("plist", "<!DOCTYPE plist PUBLIC \"-//Apple//DTD PLIST 1.0//EN\" \"http://www.apple.com/DTDs/PropertyList-1.0.dtd\">")]

/-- Elements without content, which have no closing tag outside XML. -/
def voidElements : List String :=
  ["area", "base", "br", "col", "embed", "hr", "img", "input", "keygen", "link", "menuitem", "meta",
    "param", "source", "track", "wbr"]

/-- Small letters for capital ones. Only ASCII letters count: no other letter has one of the
small letters in the names compared here. -/
def lower (text : String) : String := String.ofList (text.toList.map Char.toLower)

/-- A terse dialect writes switched-on attributes by name alone and leaves void elements open;
XML has no void elements. -/
structure Dialect where
  doctype : Option String
  terse : Bool
  xml : Bool
deriving DecidableEq, Repr

namespace Dialect

def unset : Dialect := ⟨none, false, false⟩

def doctypeOf (name : String) : String :=
  (doctypes.lookup (lower name)).getD ("<!DOCTYPE " ++ name ++ ">")

def ofName (name : String) : Dialect where
  doctype := some (doctypeOf name)
  terse := lower (doctypeOf name) == "<!doctype html>"
  xml := "<?xml".toList.isPrefixOf (doctypeOf name).toList

def isVoid (dialect : Dialect) (element : String) : Bool := !dialect.xml && element ∈ voidElements

end Dialect

end NimTemplate.Markup
