import CodeBuffer.Unicode.BaseProperty
import CodeBuffer.Unicode.CaseFold
import CodeBuffer.Unicode.Category

namespace CodeBuffer.Unicode

/-- The characters of some categories and those that have one of some properties. -/
def combined (cs : List Category) (ps : List BaseProperty) : Ranges :=
  (Category.unionOf cs).union (.ofList (ps.flatMap BaseProperty.ranges))

def lowercase : Ranges := combined [.lowercaseLetter] [.otherLowercase]

def uppercase : Ranges := combined [.uppercaseLetter] [.otherUppercase]

def alphabetic : Ranges :=
  combined (.letterNumber :: Category.letters)
    [.otherLowercase, .otherUppercase, .otherAlphabetic]

/-- The two syntactic classes that no identifier may have characters of. -/
def patternCharacters : Ranges := combined [] [.patternSyntax, .patternWhiteSpace]

def idStart : Ranges :=
  (combined (.letterNumber :: Category.letters) [.otherIdStart]).diff patternCharacters

def idContinue : Ranges :=
  idStart.union ((combined [.nonspacingMark, .spacingMark, .decimalNumber, .connectorPunctuation]
    [.otherIdContinue]).diff patternCharacters)

/-- The identifier characters whose compatibility form is no identifier. -/
def unstableIdStart : Ranges :=
  .ofListing "37A E33 EB3 309B-309C FC5E-FC63 FDFA-FDFB FE70 FE72 FE74 FE76 FE78 FE7A FE7C FE7E
    FF9E-FF9F"

def unstableIdContinue : Ranges :=
  .ofListing "37A 309B-309C FC5E-FC63 FDFA-FDFB FE70 FE72 FE74 FE76 FE78 FE7A FE7C FE7E"

def graphemeExtend : Ranges := combined [.enclosingMark, .nonspacingMark] [.otherGraphemeExtend]

/-- The characters that may stand inside a word but neither begin nor end it. -/
def midLetter : Ranges := .ofListing "3A B7 387 55F 5F4 2027 FE13 FE55 FF1A"

def midNumLet : Ranges := .ofListing "2E 2018-2019 2024 FE52 FF07 FF0E"

def defaultIgnorable : Ranges :=
  (combined [.format] [.otherDefaultIgnorable, .variationSelector]).diff
    ((combined [] [.whiteSpace, .prependedConcatenationMark]).union
      (.ofListing "FFF9-FFFB 13430-13440"))

def titlecase : Ranges := Category.titlecaseLetter.ranges

/-- The characters that the full mapping to lower case changes: those that vary and are not in
lower case, and one with a mapping to two characters. -/
def lowerChanging : Ranges :=
  (caseVarying.inter (uppercase.union titlecase)).union (.ofListing "130")

def upperChanging : Ranges :=
  (caseVarying.inter ((lowercase.union titlecase).union (.ofListing "345"))).union
    (.ofListing "131 149 1F0 587 1E96-1E9A 1F50 1F52 1F54 1F56 1FB2 1FB4 1FB6-1FB7 1FC2 1FC4
      1FC6-1FC7 1FD2 1FD6-1FD7 1FE2 1FE4 1FE6-1FE7 1FF2 1FF4 1FF6-1FF7 FB00-FB04 FB13-FB17")

def titleChanging : Ranges :=
  (upperChanging.diff (titlecase.union (.ofListing "10D0-10FA 10FD-10FF"))).union
    (.ofListing "1C4 1C7 1CA 1F1")

def foldChanging : Ranges :=
  (folding.diff (.ofListing "1FBE 1FD3 1FE3")).union
    (.ofListing "DF 130 149 587 1E9A 1F80-1F87 1F90-1F97 1FA0-1FA7 1FB2-1FB4 1FB7 1FC2-1FC4 1FC7
      1FF2-1FF4 1FF7 FB00-FB06 FB13-FB17")

/-- The properties that a character has or has not. -/
inductive Property where
  | base (p : BaseProperty)
  | alphabetic
  | caseIgnorable
  | cased
  | changesWhenCasefolded
  | changesWhenCasemapped
  | changesWhenLowercased
  | changesWhenTitlecased
  | changesWhenUppercased
  | defaultIgnorable
  | graphemeBase
  | graphemeExtend
  | idContinue
  | idStart
  | lowercase
  | math
  | uppercase
  | xidContinue
  | xidStart

namespace Property

def ranges : Property → Ranges
  | base p => p.ranges
  | alphabetic => Unicode.alphabetic
  | caseIgnorable =>
    (combined [.nonspacingMark, .enclosingMark, .format, .modifierLetter, .modifierSymbol] []).union
      ((midLetter.union midNumLet).union (.ofListing "27"))
  | cased => (Unicode.lowercase.union Unicode.uppercase).union titlecase
  | changesWhenCasefolded => foldChanging
  | changesWhenCasemapped => (lowerChanging.union upperChanging).union titleChanging
  | changesWhenLowercased => lowerChanging
  | changesWhenTitlecased => titleChanging
  | changesWhenUppercased => upperChanging
  | defaultIgnorable => Unicode.defaultIgnorable
  | graphemeBase =>
    (Category.unionOf Category.assigned).diff
      ((combined [.control, .format, .privateUse, .lineSeparator, .paragraphSeparator] []).union
        Unicode.graphemeExtend)
  | graphemeExtend => Unicode.graphemeExtend
  | idContinue => Unicode.idContinue
  | idStart => Unicode.idStart
  | lowercase => Unicode.lowercase
  | math => combined [.mathSymbol] [.otherMath]
  | uppercase => Unicode.uppercase
  | xidContinue => Unicode.idContinue.diff unstableIdContinue
  | xidStart => Unicode.idStart.diff unstableIdStart

/-- The properties by their names and short names, in the loose form of names. -/
def names : List (String × Property) :=
  [("asciihexdigit", base .asciiHexDigit), ("ahex", base .asciiHexDigit),
   ("alphabetic", alphabetic), ("alpha", alphabetic), ("bidicontrol", base .bidiControl),
   ("bidic", base .bidiControl), ("bidimirrored", base .bidiMirrored),
   ("bidim", base .bidiMirrored), ("caseignorable", caseIgnorable), ("ci", caseIgnorable),
   ("cased", cased), ("changeswhencasefolded", changesWhenCasefolded),
   ("cwcf", changesWhenCasefolded), ("changeswhencasemapped", changesWhenCasemapped),
   ("cwcm", changesWhenCasemapped), ("changeswhenlowercased", changesWhenLowercased),
   ("cwl", changesWhenLowercased), ("changeswhentitlecased", changesWhenTitlecased),
   ("cwt", changesWhenTitlecased), ("changeswhenuppercased", changesWhenUppercased),
   ("cwu", changesWhenUppercased), ("dash", base .dash),
   ("defaultignorablecodepoint", defaultIgnorable), ("di", defaultIgnorable),
   ("deprecated", base .deprecated), ("dep", base .deprecated), ("diacritic", base .diacritic),
   ("dia", base .diacritic), ("emoji", base .emoji), ("emojicomponent", base .emojiComponent),
   ("ecomp", base .emojiComponent), ("emojimodifier", base .emojiModifier),
   ("emod", base .emojiModifier), ("emojimodifierbase", base .emojiModifierBase),
   ("ebase", base .emojiModifierBase), ("emojipresentation", base .emojiPresentation),
   ("epres", base .emojiPresentation), ("extendedpictographic", base .extendedPictographic),
   ("extpict", base .extendedPictographic), ("extender", base .extender), ("ext", base .extender),
   ("graphemebase", graphemeBase), ("grbase", graphemeBase), ("graphemeextend", graphemeExtend),
   ("grext", graphemeExtend), ("graphemelink", base .graphemeLink),
   ("grlink", base .graphemeLink), ("hexdigit", base .hexDigit), ("hex", base .hexDigit),
   ("hyphen", base .hyphen), ("idsbinaryoperator", base .idsBinaryOperator),
   ("idsb", base .idsBinaryOperator), ("idstrinaryoperator", base .idsTrinaryOperator),
   ("idst", base .idsTrinaryOperator), ("idsunaryoperator", base .idsUnaryOperator),
   ("idsu", base .idsUnaryOperator), ("idcompatmathcontinue", base .idCompatMathContinue),
   ("idcompatmathstart", base .idCompatMathStart), ("idcontinue", idContinue),
   ("idc", idContinue), ("idstart", idStart), ("ids", idStart),
   ("ideographic", base .ideographic), ("ideo", base .ideographic),
   ("joincontrol", base .joinControl), ("joinc", base .joinControl),
   ("logicalorderexception", base .logicalOrderException), ("loe", base .logicalOrderException),
   ("lowercase", lowercase), ("lower", lowercase), ("math", math),
   ("modifiercombiningmark", base .modifierCombiningMark), ("mcm", base .modifierCombiningMark),
   ("noncharactercodepoint", base .noncharacter), ("nchar", base .noncharacter),
   ("otheralphabetic", base .otherAlphabetic), ("oalpha", base .otherAlphabetic),
   ("otherdefaultignorablecodepoint", base .otherDefaultIgnorable),
   ("odi", base .otherDefaultIgnorable), ("othergraphemeextend", base .otherGraphemeExtend),
   ("ogrext", base .otherGraphemeExtend), ("otheridcontinue", base .otherIdContinue),
   ("oidc", base .otherIdContinue), ("otheridstart", base .otherIdStart),
   ("oids", base .otherIdStart), ("otherlowercase", base .otherLowercase),
   ("olower", base .otherLowercase), ("othermath", base .otherMath), ("omath", base .otherMath),
   ("otheruppercase", base .otherUppercase), ("oupper", base .otherUppercase),
   ("patternsyntax", base .patternSyntax), ("patsyn", base .patternSyntax),
   ("patternwhitespace", base .patternWhiteSpace), ("patws", base .patternWhiteSpace),
   ("prependedconcatenationmark", base .prependedConcatenationMark),
   ("pcm", base .prependedConcatenationMark), ("quotationmark", base .quotationMark),
   ("qmark", base .quotationMark), ("radical", base .radical),
   ("regionalindicator", base .regionalIndicator), ("ri", base .regionalIndicator),
   ("sentenceterminal", base .sentenceTerminal), ("sterm", base .sentenceTerminal),
   ("softdotted", base .softDotted), ("sd", base .softDotted),
   ("terminalpunctuation", base .terminalPunctuation), ("term", base .terminalPunctuation),
   ("unifiedideograph", base .unifiedIdeograph), ("uideo", base .unifiedIdeograph),
   ("uppercase", uppercase), ("upper", uppercase), ("variationselector", base .variationSelector),
   ("vs", base .variationSelector), ("whitespace", base .whiteSpace),
   ("wspace", base .whiteSpace), ("space", base .whiteSpace), ("xidcontinue", xidContinue),
   ("xidc", xidContinue), ("xidstart", xidStart), ("xids", xidStart)]

end Property

end CodeBuffer.Unicode
