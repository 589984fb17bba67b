import Koklo.Delivery.QuotaChecks
import Koklo.Delivery.QuotaText
import Koklo.Foundations.Decimal

/-!
# Quota signals in the output of an agent

The patterns are tried one after the other, and each of them on all the scanned lines before the
next one: the first line that the first such pattern recognizes gives the signal. A pattern also
says how strong its signal is; a colored line never proves anything.
-/

set_option autoImplicit false

namespace Koklo.Delivery.Quota

open Koklo.Foundations

/-- The groups that `buildSignal` reads. -/
inductive QuotaGroup where
  | epoch | retry | hour | minute | meridiem | zone
deriving DecidableEq

/-- The expressions of the patterns of limits. -/
abbrev QuotaExp := RegExp QuotaGroup

/-- A pattern of a limit, with the kind and the strength of its signals. -/
structure QuotaPattern where
  name : Text
  kind : QuotaKind
  strength : QuotaStrength
  regex : QuotaExp

/-- `QUOTA_SCAN_CHARS`. -/
def quotaScanChars : ℕ := 4000

/-- `QUOTA_RAW_MAX_CHARS`. -/
def quotaRawMaxChars : ℕ := 500

/-! ## Patterns -/

section Parts

def digit : QuotaExp := .unit Text.isDigit

/-- `[^\n]`. -/
def inLine : QuotaExp := .unit (· ≠ Text.newline)

/-- ` ?`. -/
def space : QuotaExp := .optional (.word " ")

/-- `CLOCK`. -/
def clock : QuotaExp :=
  .seqs [.group .hour (.between 1 2 digit),
    .optional (.seq (.word ":") (.group .minute (.times 2 digit))), space,
    .group .meridiem (.seq (.among "apAP") (.word "m")), .boundary]

/-- `[A-Za-z][\w+-]{0,30}`. -/
def zoneName : QuotaExp :=
  .seq (.unit Text.isLetter) (.upTo 30 (.unit fun u => Text.isWord u || u ∈ Text.lit "+-"))

/-- `ZONE`. -/
def zone : QuotaExp :=
  .optional (.seqs [space, .word "(",
    .group .zone (.seq zoneName (.upTo 3 (.seq (.word "/") zoneName))), .word ")"])

/-- `resets`, a clock and a zone. -/
def resetsClock : QuotaExp := .seqs [.word "resets ", clock, zone]

/-- `RESETS`. -/
def resets : QuotaExp := .optional (.seq (.fewUpTo 20 inLine) resetsClock)

/-- `MONTH_OR_DAY`. -/
def monthOrDay : QuotaExp :=
  .oneOf (.word "mon") ((["tue", "wed", "thu", "fri", "sat", "sun", "jan", "feb", "mar", "apr",
    "may", "jun", "jul", "aug", "sep", "oct", "nov", "dec"] : List String).map .word)

/-- `[ \t]`. -/
def quotaBlank : QuotaExp := .unit isBlank

/-- `ANCHOR`. -/
def anchor : QuotaExp :=
  .oneOf
    (.seqs [.start, .upTo 20 quotaBlank,
      .optional (.seq (.among "-•∙·") (.between 1 3 quotaBlank))])
    [.seqs [.boundary, .word "API Error: ", .optional (.seq (.times 3 digit) (.word " "))],
      .seq .boundary (.word "Error: "),
      .seqs [.word "\"", .oneOf (.word "result") [.word "message", .word "error"], .word "\":",
        space, .word "\""]]

/-- `\b429\b`. -/
def code429 : QuotaExp := .seqs [.boundary, .word "429", .boundary]

/-- `(?:rate limit|too many requests)`. -/
def tooMany : QuotaExp := .alt (.word "rate limit") (.word "too many requests")

/-- `\bout of (?:extra )?usage`. -/
def outOfUsage : QuotaExp :=
  .seqs [.boundary, .word "out of ", .optional (.word "extra "), .word "usage"]

/-- `\\?`. -/
def backslash : QuotaExp := .optional (.word "\\")

end Parts

def pattern (name : String) (kind : QuotaKind) (strength : QuotaStrength) (parts : List QuotaExp) :
    QuotaPattern := ⟨Text.lit name, kind, strength, .seqs parts⟩

/-- `WEAK_PATTERNS`. -/
def weakPatterns : List QuotaPattern := [
  pattern "rate-limit-error-bare" .rateWindow .weak [.boundary, .word "rate_limit_error", .boundary],
  pattern "http-429-rate-limit-net" .unknownLimit .weak
    [.alt (.seqs [code429, .fewUpTo 40 inLine, tooMany])
      (.seqs [tooMany, .fewUpTo 40 inLine, code429])],
  pattern "request-rejected-429" .unknownLimit .weak [.boundary, .word "request rejected (429)"],
  pattern "usage-limit-reached-net" .unknownLimit .weak
    [.boundary, .alt (.word "usage") (.word "rate"), .word " limit ",
      .alt (.word "reached") (.word "exceeded"), .boundary],
  pattern "exceeded-your-usage-limit" .unknownLimit .weak
    [.boundary, .word "exceeded your usage limit", .boundary],
  pattern "out-of-usage-net" .unknownLimit .weak [outOfUsage, .boundary],
  pattern "unknown-limit-heuristic" .unknownLimit .weak
    [.boundary, .alt (.word "limit") (.word "quota"), .boundary, .fewUpTo 60 inLine, .boundary,
      .word "resets ", .oneOf (.word "at") [.word "in", .word "on", digit,
        .seqs [monthOrDay, .many (.unit Text.isLetter), .boundary]]]]

/-- `QUOTA_PATTERNS`. -/
def quotaPatterns : List QuotaPattern := [
  pattern "claude-usage-limit-reached-epoch" .rateWindow .strong
    [anchor, .word "claude ", .optional (.word "ai "), .word "usage limit reached|",
      .group .epoch (.between 1 20 digit)],
  pattern "five-hour-limit-resets-clock" .rateWindow .strong
    [anchor, .word "5", .among "-–—", .word "hour limit reached", resets],
  pattern "weekly-limit-reached" .rateWindow .strong [anchor, .word "weekly limit reached"],
  pattern "opus-limit-reached" .rateWindow .strong [anchor, .word "opus limit reached", resets],
  pattern "your-limit-will-reset-at" .rateWindow .strong
    [.boundary, .word "your limit will reset at ", clock, zone],
  pattern "hit-your-limit-resets" .rateWindow .strong
    [anchor, .word "you", .oneOf (.word "'ve") [.word "’ve", .word " have"],
      .word " hit your limit", resets],
  pattern "out-of-usage-resets" .rateWindow .strong [outOfUsage, .fewUpTo 20 inLine, resetsClock],
  pattern "api-429-retry-after" .rateWindow .strong
    [.alt code429 (.word "rate_limit_error"), .fewUpTo 60 inLine, .word "retry-after",
      .optional (.word ":"), space, .group .retry (.between 1 9 digit), .boundary],
  pattern "api-429-rate-limit-error" .rateWindow .strong
    [.alt
      (.seqs [.word "\"type", backslash, .word "\":", space, backslash, .word "\""])
      (.seqs [.boundary, .word "API Error:", .fewUpTo 40 inLine, .boundary]),
      .word "rate_limit_error", .boundary],
  pattern "api-429-too-many-requests" .rateWindow .strong
    [anchor, .optional (.word "http "), .word "429", .boundary, .fewUpTo 20 inLine,
      .word "too many requests"],
  pattern "credit-balance-too-low" .exhausted .strong
    [anchor, .optional (.word "your "), .word "credit balance is too low"]] ++ weakPatterns

/-! ## The signal -/

/-- A signal, with the name of its pattern and the extract that shows it. -/
structure DetectedSignal extends QuotaSignal where
  pattern : Text
  raw : Text

/-- The capture of a named group. -/
def groupOf (found : RegExp.Found QuotaGroup) (name : QuotaGroup) : Option Text :=
  (found.groups.find? (·.1 = name)).map (·.2)

/-- `Number`, of digits. -/
def numberOf (digits : Text) : ℚ := Text.decimal digits

/-- The instant of a date in seconds, when it is one. -/
def epochToMs (digits : Option Text) : Option ℚ :=
  (digits.map fun digits => numberOf digits * 1000).filter isEpoch

/-- The delay in milliseconds, up to the longest one. -/
def retryToMs (digits : Option Text) : Option ℚ :=
  digits.map fun digits => min (numberOf digits * 1000) maxBackoffMs

/-- `digits % 12`, and twelve hours more in the afternoon. -/
def clockHint (found : RegExp.Found QuotaGroup) : Option ClockHint := do
  let hourDigits ← groupOf found .hour
  let meridiem ← groupOf found .meridiem
  let hour := Text.decimal hourDigits
  let minute := Text.decimal ((groupOf found .minute).getD (Text.lit "0"))
  if hour < 1 || 12 < hour || 59 < minute then none
  else
    let pm := if meridiem.map Text.foldCase = Text.lit "pm" then 12 else 0
    some ⟨(hour % 12 + pm : ℕ), minute, groupOf found .zone⟩

/-- The extract around a match. -/
def excerpt (line : Text) (index : ℕ) : Text :=
  Text.trim ((line.drop (index - 100)).take quotaRawMaxChars)

/-- The signal of a match; a coloured line makes it weak. -/
def buildSignal (candidate : QuotaPattern) (found : RegExp.Found QuotaGroup) (line : ScannedLine) :
    DetectedSignal where
  kind := candidate.kind
  strength := if line.colored then .weak else candidate.strength
  resetAt := epochToMs (groupOf found .epoch)
  retryAfterMs := retryToMs (groupOf found .retry)
  resetHint := clockHint found
  id := none
  pattern := candidate.name
  raw := excerpt line.text found.index

/-- What the signal is built from. -/
structure Detection where
  candidate : QuotaPattern
  found : RegExp.Found QuotaGroup
  line : ScannedLine

/-- The loops of `detectQuota`. -/
def findQuota (patterns : List QuotaPattern) (lines : List ScannedLine) : Option Detection :=
  patterns.findSome? fun candidate => lines.findSome? fun line =>
    (candidate.regex.exec line.text).map fun found => ⟨candidate, found, line⟩

/-- The signal of an output, when a pattern matches one of its last lines. -/
def detectQuota (output : Text) : Option DetectedSignal :=
  (findQuota quotaPatterns (scanLines output quotaScanChars)).map fun detection =>
    buildSignal detection.candidate detection.found detection.line

end Koklo.Delivery.Quota
