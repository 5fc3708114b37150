import BraceDoc.Text.Blank
import BraceDoc.Text.Newline
import BraceDoc.Text.Word

/-!
# The language of a literal

A guess at what a literal holds, with a confidence and a reason. Single strong signs decide first;
then weaker signs of LaTeX are added up; the lighter formats follow. All signs are read off the
trimmed text with unified line ends, some of them off its first line that is not blank.
-/

set_option autoImplicit false

namespace BraceDoc

inductive Language where
  | bibtex
  | cslJson
  | latex
  | typst
  | markdown
  | html
  | text
  | unknown
  deriving DecidableEq, Inhabited

def Language.name : Language → String
  | .bibtex => "bibtex"
  | .cslJson => "csl-json"
  | .latex => "latex"
  | .typst => "typst"
  | .markdown => "markdown"
  | .html => "html"
  | .text => "text"
  | .unknown => "unknown"

structure Verdict where
  language : Language
  /-- Between zero and one, in single precision. -/
  confidence : Float32
  reason : String
  deriving Inhabited

namespace Language

open Text

def startsWith (word : String) (cs : List Char) : Bool :=
  word.toList.isPrefixOf cs

def startsWithWord (words : List String) (cs : List Char) : Bool :=
  words.any fun word => startsWith word cs && endsWord (cs.drop word.length)

def hasControlWord (words : List String) (cs : List Char) : Bool :=
  anywhere (fun
    | '\\' :: rest => startsWithWord words rest
    | _ => false) cs

/-- Whether the text behind the first `opening` contains `closing`. -/
def encloses (opening closing : String) (cs : List Char) : Bool :=
  match cut? opening.toList cs with
  | some (_, rest) => contains closing.toList rest
  | none => false

/-! ## Strong signs -/

/-- An at sign, a word, blanks and an opening brace. -/
def startsEntry : List Char → Bool
  | '@' :: rest =>
    (rest.head?.any isWord) && ((rest.dropWhile isWord).dropWhile isBlank).head? == some '\x7b'
  | _ => false

def startsJson (first : List Char) : Bool :=
  first.head? == some '\x7b' || first.head? == some '['

def hasCitationKey (cs : List Char) : Bool :=
  ["\"issued\"", "\"author\"", "\"title\""].any fun key => contains key.toList cs

def hasEnvironmentMark (cs : List Char) : Bool :=
  contains "\\begin\x7b".toList cs || contains "\\end\x7b".toList cs

def strongCommands : List String :=
  ["section", "subsection", "textbf", "textit", "cite"]

def dollarWrapped (first cs : List Char) : Bool :=
  first.head? == some '$' && cs.getLast? == some '$'

/-! ## Weak signs of LaTeX -/

def environments : List String :=
  ["equation", "align", "aligned", "gather", "multline", "array", "tabular", "matrix", "pmatrix",
    "bmatrix", "vmatrix", "cases", "itemize", "enumerate", "figure", "table", "thebibliography",
    "tikzpicture"]

def hasEnvironment (cs : List Char) : Bool :=
  ["\\begin\x7b", "\\end\x7b"].any fun mark =>
    environments.any fun name => contains (mark ++ name ++ "\x7d").toList cs

def isDisplayDollars (cs : List Char) : Bool :=
  match trimStart cs with
  | '$' :: '$' :: rest => "$$".toList.isPrefixOf (trimEnd rest).reverse
  | _ => false

def preambleCommands : List String :=
  ["documentclass", "usepackage", "newcommand", "renewcommand", "providecommand",
    "DeclareMathOperator"]

def mathCommands : List String :=
  ["frac", "dfrac", "tfrac", "sum", "prod", "int", "iint", "iiint", "oint", "sqrt", "left", "right",
    "cdot", "times", "pm", "mp", "leq", "geq", "neq", "approx", "equiv", "to", "mapsto", "infty",
    "partial", "nabla", "mathrm", "mathbf", "mathit", "mathbb", "mathcal", "text"]

def greekLetters : List String :=
  ["alpha", "beta", "gamma", "delta", "epsilon", "varepsilon", "zeta", "eta", "theta", "vartheta",
    "iota", "kappa", "lambda", "mu", "nu", "xi", "pi", "varpi", "rho", "varrho", "sigma",
    "varsigma", "tau", "upsilon", "phi", "varphi", "chi", "psi", "omega", "Gamma", "Delta", "Theta",
    "Lambda", "Xi", "Pi", "Sigma", "Upsilon", "Phi", "Psi", "Omega"]

def documentCommands : List String :=
  strongCommands ++ ["label", "ref", "pageref"]

def isInlineBlank (c : Char) : Bool :=
  isBlank c && c != '\r' && c != '\n'

/-- An ampersand with an equals sign behind it on the same line, or the start of an alignment. -/
def hasAlignment (cs : List Char) : Bool :=
  anywhere (fun
    | '&' :: rest => (rest.dropWhile isInlineBlank).head? == some '='
    | _ => false) cs || contains "\\begin\x7balign".toList cs

def hasScript (cs : List Char) : Bool :=
  cs.any (fun c => c = '_' || c = '^') && cs.any (fun c => c = '\\' || c = '$')

def startsComment (cs : List Char) : Bool :=
  (trimStart cs).head? == some '%'

/-- A percent sign with nothing but blanks between it and a line start. -/
def hasCommentLine (cs : List Char) : Bool :=
  startsComment cs || anywhere (fun
    | '\n' :: rest => startsComment rest
    | _ => false) cs

def latexSigns (first cs : List Char) : List (Nat × String) :=
  [ (hasEnvironment cs, 3, "common LaTeX environment"),
    (encloses "\\[" "\\]" cs, 3, "\\[...\\] display math"),
    (encloses "\\(" "\\)" cs, 2, "\\(...\\) inline math"),
    (isDisplayDollars cs, 3, "$$...$$ display math"),
    (hasControlWord preambleCommands cs, 3, "preamble-style commands"),
    (hasControlWord mathCommands cs, 2, "common math commands"),
    (hasControlWord greekLetters cs, 2, "Greek letter commands"),
    (hasAlignment cs, 2, "alignment markers (&, &=)"),
    (hasScript cs, 1, "math subscripts/superscripts"),
    (hasCommentLine cs, 1, "LaTeX comment (%)"),
    (hasControlWord documentCommands cs, 2, "LaTeX document commands"),
    (dollarWrapped first cs, 2, "$...$ math-ish")].filterMap fun (shown, weight, name) =>
      if shown then some (weight, name) else none

def latexThreshold : Nat := 4

def latexConfidence (score : Nat) : Float32 :=
  let raw : Float32 := 0.55 + Float32.ofNat score * 0.08
  if raw < 0.95 then raw else 0.95

def weighLatex? (first cs : List Char) : Option Verdict :=
  let signs := latexSigns first cs
  let score := signs.foldl (fun total sign => total + sign.1) 0
  if score < latexThreshold then
    none
  else
    some ⟨.latex, latexConfidence score, String.intercalate "; " (signs.map (·.2))⟩

/-! ## Lighter formats -/

/-- The letters that case folding joins to the ASCII letters. -/
def foldLetter (c : Char) : Char :=
  if c.toNat = 0x17F then 's'
  else if c.toNat = 0x212A then 'k'
  else if 'A' ≤ c && c ≤ 'Z' then Char.ofNat (c.toNat + 32)
  else c

def isFoldedLetter (c : Char) : Bool :=
  let folded := foldLetter c
  'a' ≤ folded && folded ≤ 'z'

/-- Whether the word `typst` stands in the text, in any case; `inside` says whether a word reaches
up to the text from before. -/
def hasTypst (inside : Bool) : List Char → Bool
  | [] => false
  | c :: cs =>
    (!inside && startsWithWord ["typst"] (((c :: cs).take 5).map foldLetter ++ cs.drop 4)) ||
      hasTypst (isWord c) cs

def startsTypst : List Char → Bool
  | '#' :: rest => startsWithWord ["set", "show", "import"] rest
  | _ => false

def startsWithBlank (cs : List Char) : Bool :=
  cs.head?.any isBlank

def startsMarkdown (first : List Char) : Bool :=
  let hashes := first.takeWhile (· = '#')
  let digits := first.takeWhile isDigit
  (1 ≤ hashes.length && hashes.length ≤ 6 && startsWithBlank (first.drop hashes.length)) ||
    startsWith "- " first || startsWith "* " first ||
    (!digits.isEmpty && match first.drop digits.length with
      | '.' :: rest => startsWithBlank rest
      | _ => false)

def startsTag : List Char → Bool
  | '<' :: rest =>
    rest.head?.any isFoldedLetter &&
      endsWord (rest.dropWhile fun c => isFoldedLetter c || ('0' ≤ c && c ≤ '9'))
  | _ => false

def firstLine (cs : List Char) : List Char :=
  (((lines cs).map trim).find? fun line => !line.isEmpty).getD []

def judge (cs : List Char) : Verdict :=
  let first := firstLine cs
  if startsEntry first then
    ⟨.bibtex, 0.95, "starts with @type\x7b...\x7d"⟩
  else if startsJson first && hasCitationKey cs then
    ⟨.cslJson, 0.7, "JSON-like with CSL-ish keys"⟩
  else if hasEnvironmentMark cs || hasControlWord strongCommands cs || dollarWrapped first cs then
    ⟨.latex, 0.7, "LaTeX control sequences detected"⟩
  else
    match weighLatex? first cs with
    | some verdict => verdict
    | none =>
      if startsTypst first || hasTypst false first then
        ⟨.typst, 0.55, "typst-ish directives"⟩
      else if startsMarkdown first || contains "```".toList cs then
        ⟨.markdown, 0.6, "markdown markers detected"⟩
      else if startsTag first then
        ⟨.html, 0.6, "looks like an HTML tag"⟩
      else
        ⟨.unknown, 0.2, "no known patterns matched"⟩

/-- The guess at the language of a literal. -/
def detect (content : String) : Verdict :=
  let cs := trim (unify content.toList)
  if cs.isEmpty then ⟨.text, 1.0, "empty block"⟩ else judge cs

end Language

end BraceDoc
