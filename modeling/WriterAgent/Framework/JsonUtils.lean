import WriterAgent.Foundations.Json
import WriterAgent.Foundations.TextScan

/-!
# Lenient JSON

`safe_json_loads` in `plugin/framework/json_utils.py` reads JSON written by a
language model.  A LaTeX command such as `\times`, which JSON reads as a tab
and `imes`, gets a second backslash first; this is done to every text.
-/

namespace WriterAgent.Framework

open PyText

variable {ν : Type}

/-- The readers that `safe_json_loads` tries, each with no answer where it
raises, and the characters of `\w`. -/
structure JsonReaders (ν : Type) where
  isWord : Char → Bool
  loads : Text → Option (Json ν)
  loadsLenient : Text → Option (Json ν)
  literalEval : Text → Option (Json ν)
  repairJson : Text → Option Text

def latexClashWords : List String :=
  ["alpha", "approx", "ast", "angle", "arccos", "arcsin", "arctan", "arg",
    "aleph", "amalg", "beta", "begin", "bar", "bot", "bullet", "bmod",
    "boldsymbol", "bigcup", "bigcap", "bigg", "backslash", "bf", "bm", "big",
    "bigodot", "bigoplus", "bigotimes", "biguplus", "bigvee", "bigwedge",
    "box", "breve", "buildrel", "bumpeq", "frac", "forall", "varphi", "fbox",
    "framebox", "flat", "frown", "nabla", "neq", "nu", "norm", "notin",
    "newline", "nRightarrow", "nleftarrow", "nLeftrightarrow", "natural", "ne",
    "nearrow", "neg", "ni", "not", "nwarrow", "right", "rho", "rangle",
    "rightarrow", "rbrace", "rbrack", "rceil", "rfloor", "renewcommand",
    "require", "Rightarrow", "Re", "rightleftharpoons", "rm", "rtimes",
    "times", "text", "tau", "theta", "tilde", "tan", "tfrac", "triangle", "to",
    "textbf", "textit", "texttt", "top", "triangleright", "vec", "varepsilon",
    "varpi", "varrho", "varsigma", "vartheta", "vdash", "vee", "vert", "Vert"]

/-- `_LATEX_CLASH_RE`: a backslash behind no other one and a clash word that
ends there. -/
def latexClash? (isWord : Char → Bool) (before : Option Char) : Text → Option (ℕ × Text)
  | '\\' :: rest =>
    if before = some '\\' then none
    else
      ((latexClashWords.map String.toList).find? fun word =>
        word.isPrefixOf rest && !(rest.drop word.length).head?.any isWord).map
        fun word => (word.length + 1, '\\' :: '\\' :: word)
  | _ => none

/-- The control character that JSON reads the escape with a letter as. -/
def escapeMap : Char → Option Char
  | 'n' => some '\n'
  | 't' => some '\t'
  | 'r' => some '\r'
  | 'b' => some (Char.ofNat 8)
  | 'f' => some (Char.ofNat 12)
  | _ => none

def silentCorruptions : List (Text × Text) :=
  latexClashWords.filterMap fun word =>
    match word.toList with
    | first :: rest => (escapeMap first).map fun control =>
      (control :: rest, '\\' :: '\\' :: first :: rest)
    | [] => none

def repairLatexClashes (isWord : Char → Bool) (text : Text) : Text :=
  silentCorruptions.foldl (fun text corruption => replaceText corruption.1 corruption.2 text)
    (substitute (latexClash? isWord) none 0 text)

theorem repairLatexClashes_eq_self {isWord : Char → Bool} {text : Text} (noBackslash : '\\' ∉ text)
    (noControl : ∀ letter control, escapeMap letter = some control →
      control ∉ text) : repairLatexClashes isWord text = text := by
  have clashes : substitute (latexClash? isWord) none 0 text = text := by
    apply substitute_eq_self
    intro front c back split
    rw [latexClash?.eq_def]
    split
    · rename_i rest same
      cases same
      exact absurd (split ▸ List.mem_append_right _ List.mem_cons_self) noBackslash
    · rfl
  have corrupted : ∀ corruption ∈ silentCorruptions,
      replaceText corruption.1 corruption.2 text = text := by
    intro corruption member
    obtain ⟨word, -, isCorruption⟩ := List.mem_filterMap.mp member
    split at isCorruption
    · rename_i first rest isWordList
      obtain ⟨control, escaped, rfl⟩ := Option.map_eq_some_iff.mp isCorruption
      exact replaceText_eq_self List.mem_cons_self (noControl first control escaped)
    · cases isCorruption
  rw [repairLatexClashes, clashes]
  generalize silentCorruptions = corruptions at corrupted ⊢
  induction corruptions with
  | nil => rfl
  | cons corruption rest ih =>
    rw [List.forall_mem_cons] at corrupted
    rw [List.foldl_cons, corrupted.1]
    exact ih corrupted.2

/-- `safe_json_loads(text)` with the default `None`. -/
def safeJsonLoads (readers : JsonReaders ν) (text : Text) : Json ν :=
  if (strip text).isEmpty then .null
  else
    let stripped := repairLatexClashes readers.isWord (strip text)
    ((readers.loads stripped).orElse fun _ =>
      (readers.loadsLenient stripped).orElse fun _ =>
      (readers.literalEval stripped).orElse fun _ =>
      (readers.repairJson stripped).bind fun repaired =>
        if repaired = stripped then none
        else readers.loadsLenient repaired).getD .null

end WriterAgent.Framework
