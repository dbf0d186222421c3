import VueScope.Text.Case

/-! Tag names as the element rules see them: compared without regard to case,
the names of the vocabulary apart from custom names. -/
namespace VueScope.Markup

/-- A tag name in small letters. -/
structure TagName where
  name : List Char
deriving DecidableEq, Repr

namespace TagName

def ofChars (written : List Char) : TagName :=
  ⟨Text.lower written⟩

def isOneOf (names : List String) (tag : TagName) : Bool :=
  names.any fun name => name.toList = tag.name

def voidNames : List String :=
  ["area", "base", "basefont", "bgsound", "br", "col", "command", "embed", "frame", "hr", "image",
    "img", "input", "isindex", "keygen", "link", "menuitem", "meta", "nextid", "param", "source",
    "track", "wbr"]

def ordinaryNames : List String :=
  ["a", "abbr", "address", "article", "aside", "audio", "b", "bdi", "bdo", "blockquote", "body",
    "button", "canvas", "caption", "cite", "code", "colgroup", "data", "datalist", "dd", "del",
    "details", "dfn", "dialog", "div", "dl", "dt", "em", "fieldset", "figcaption", "figure",
    "footer", "form", "h1", "h2", "h3", "h4", "h5", "h6", "head", "header", "hgroup", "html", "i",
    "iframe", "ins", "kbd", "label", "legend", "li", "main", "map", "mark", "math", "menu", "meter",
    "nav", "noscript", "object", "ol", "optgroup", "option", "output", "p", "picture", "pre",
    "progress", "q", "rb", "rp", "rt", "rtc", "ruby", "s", "samp", "script", "section", "select",
    "slot", "small", "span", "strong", "style", "sub", "summary", "sup", "svg", "table", "tbody",
    "td", "template", "textarea", "tfoot", "th", "thead", "time", "title", "tr", "u", "ul", "var",
    "video"]

def endsParagraph : List String :=
  ["address", "article", "aside", "blockquote", "details", "div", "dl", "fieldset", "figcaption",
    "figure", "footer", "form", "h1", "h2", "h3", "h4", "h5", "h6", "header", "hr", "main", "nav",
    "ol", "p", "pre", "section"]

/-- Elements that are written without an end tag. -/
def isVoid : TagName → Bool :=
  isOneOf voidNames

/-- A name outside the vocabulary. -/
def isCustom (tag : TagName) : Bool :=
  !(isOneOf voidNames tag || isOneOf ordinaryNames tag)

/-- The same entry of the vocabulary; all custom names share one. -/
def sameEntry (first second : TagName) : Bool :=
  first = second || (first.isCustom && second.isCustom)

/-- Whether an element may be open around a start tag, or is closed by it. -/
def canContain (parent child : TagName) : Bool :=
  if isOneOf ["li"] parent then !isOneOf ["li"] child
  else if isOneOf ["dt", "dd"] parent then !isOneOf ["dt", "dd"] child
  else if isOneOf ["p"] parent then !isOneOf endsParagraph child
  else if isOneOf ["colgroup"] parent then isOneOf ["col"] child
  else if isOneOf ["rb", "rt", "rp"] parent then !isOneOf ["rb", "rt", "rp"] child
  else if isOneOf ["optgroup"] parent then !isOneOf ["optgroup"] child
  else if isOneOf ["tr"] parent then !isOneOf ["tr"] child
  else if isOneOf ["td", "th"] parent then !isOneOf ["td", "th", "tr"] child
  else true

def isScript : TagName → Bool :=
  isOneOf ["script"]

def isStyle : TagName → Bool :=
  isOneOf ["style"]

end TagName

end VueScope.Markup
