/-!
# Errors in rule texts

Every way in which a text can fail to be a rule, and the one place where these are worded. Offsets
count bytes of the UTF-8 form of the whole text, also for errors inside nested groups.
-/

namespace Eligibility

/-- Why a text is not a rule. -/
inductive ParseError where
  /-- The text ends where a token has to stand. -/
  | noToken
  /-- A text or a group holds no rule at all. -/
  | emptyExpression
  /-- The parenthesis that opens at this offset is never closed. -/
  | unmatchedParenthesis (opening : Nat)
  /-- The quoted string that opens at this offset is never closed. -/
  | unmatchedQuote (quote : Char) (opening : Nat)
  /-- A word has to be followed by a dot and is not. -/
  | missingSeparator (after : String) (offset : Nat)
  /-- A token stands where a comparison operator is required. -/
  | unknownOperator (token : String) (offset : Nat)
  /-- A token stands where `attribute` or `entitlement` is required. -/
  | unknownAttributeKind (token : String) (offset : Nat)
  /-- A token stands where `and` or `or` is required. -/
  | expectedConnective (token : String) (offset : Nat)
  /-- One level of a rule uses both connectives. Both are given as written. -/
  | mixedConnectives (expected found : String) (offset : Nat)
  /-- A character that cannot begin what is required here. -/
  | unexpectedCharacter (character : Char) (offset : Nat)
  /-- The text ends after a connective. -/
  | danglingConnective
  /-- The list of values that opens at this offset is empty. -/
  | emptyValueList (offset : Nat)
deriving DecidableEq

/-- The text that reports an error. -/
def ParseError.message : ParseError → String
  | noToken => "no token found"
  | emptyExpression => "empty expression"
  | unmatchedParenthesis opening => s!"no matching parenthesis for '(' at offset {opening}"
  | unmatchedQuote quote opening => s!"no matching {quote} for the quote at offset {opening}"
  | missingSeparator after offset => s!"expected '.' after '{after}' at offset {offset}"
  | unknownOperator token offset => s!"unknown comparison operator '{token}' at offset {offset}"
  | unknownAttributeKind token offset =>
    s!"unknown attribute kind '{token}' at offset {offset}, expected 'attribute' or 'entitlement'"
  | expectedConnective token offset =>
    s!"expected a logical operator at offset {offset}, found '{token}'"
  | mixedConnectives expected found offset =>
    s!"'{found}' at offset {offset} mixes with '{expected}' at the same level, " ++
      "group them with parentheses"
  | unexpectedCharacter character offset => s!"unexpected '{character}' at offset {offset}"
  | danglingConnective => "expression ends with a dangling logical operator"
  | emptyValueList offset => s!"empty value list at offset {offset}"

end Eligibility
