import HttpUri.Charset.Codec
import HttpUri.Datum
import HttpUri.Url.Parts

/-! What can go wrong, and the messages that say so. -/
namespace HttpUri

inductive ArgumentError
  | emptyHostname
  | badPort (port : Datum)
  | missingMethod
  | missingUri
  | missingHeaderName

inductive UrlError
  /-- It does not fit the grammar, or is no text at all. -/
  | notReference (value : Datum)
  /-- It fits the grammar, but its authority is refused. -/
  | refused (text : Text) (fault : AuthorityFault)
  /-- Its port is no number. -/
  | portNotNumber (text : Text)
  /-- It names a host and holds user info. -/
  | userInfoInHost (text : Text)

/-- Components that make up no URL. -/
inductive BuildError
  | badScheme (scheme : Text)
  | badHost (host : Text)
  | unencodable (charset : Text) (run : Unencodable)
  /-- Without a host, a path that starts with two slashes would be read as one. -/
  | slashedPath (path : Text)
  /-- The text that the components make up is no usable reference. -/
  | refused (text : Text) (why : UrlError)

/-- Every way in which an operation fails. -/
inductive Error
  | argument (e : ArgumentError)
  | url (e : UrlError)
  | build (e : BuildError)
  | codec (e : CodecError)
  /-- No header field has the name. -/
  | missingKey (key : Text)
  /-- A numeral has more digits than are read. -/
  | tooManyDigits (count : Nat)

/-- The failure that one to build is due to. What is refused before anything is encoded or parsed,
and a path that two slashes begin, is due to none. -/
def BuildError.cause? : BuildError → Option Error
  | .unencodable _ run => some (.codec (.unencodable run))
  | .refused _ why => some (.url why)
  | .badScheme _ | .badHost _ | .slashedPath _ => none

def ArgumentError.message : ArgumentError → Text
  | .emptyHostname => "Host name may not be empty".points
  | .badPort port => "Invalid port: ".points ++ port.shown
  | .missingMethod => "Method name may not be None".points
  | .missingUri => "Request URI may not be None".points
  | .missingHeaderName => "Header name may not be None".points

def UrlError.message : UrlError → Text
  | .notReference value => "Invalid URI reference: ".points ++ value.shown
  | .refused text _ => "Invalid URI reference: ".points ++ Text.quoted text
  | .portNotNumber text => "Invalid port in ".points ++ Text.quoted text
  | .userInfoInHost text => "User info is not allowed in a host: ".points ++ Text.quoted text

def BuildError.message : BuildError → Text
  | .badScheme scheme => "Invalid scheme: ".points ++ Text.quoted scheme
  | .badHost host => "Invalid host: ".points ++ Text.quoted host
  | .unencodable charset _ => "Cannot encode URI in ".points ++ charset
  | .slashedPath path =>
    "Path may not start with '//' without a host: ".points ++ Text.quoted path
  | .refused text _ => "Could not build URI from ".points ++ Text.quoted text

def Error.message : Error → Text
  | .argument e => e.message
  | .url e => e.message
  | .build e => e.message
  | .codec e => e.message
  | .missingKey key => Text.quoted key
  | .tooManyDigits count =>
    "Exceeds the limit (".points ++ Numeral.ofNat Numeral.digitLimit ++
      " digits) for integer string conversion: value has ".points ++ Numeral.ofNat count ++
      " digits; use sys.set_int_max_str_digits() to increase the limit".points

end HttpUri
