import HttpUri.Charset.Registry
import HttpUri.ErrorClass
import HttpUri.Proofs.Authority.Accepted
import HttpUri.Proofs.Authority.Composed
import HttpUri.Proofs.Authority.Division
import HttpUri.Proofs.Authority.Parts
import HttpUri.Proofs.Authority.Port
import HttpUri.Proofs.Authority.RoundTrip
import HttpUri.Proofs.Charset.Ascii
import HttpUri.Proofs.Headers.Directory
import HttpUri.Proofs.Headers.View
import HttpUri.Proofs.Host.RoundTrip
import HttpUri.Proofs.Ip.Characters
import HttpUri.Proofs.Number.Digits
import HttpUri.Proofs.Percent.Encoded
import HttpUri.Proofs.Percent.Failure
import HttpUri.Proofs.Percent.Replacement
import HttpUri.Proofs.Query.Decoding
import HttpUri.Proofs.Query.Encodable
import HttpUri.Proofs.Query.Refusal
import HttpUri.Proofs.Query.RoundTrip
import HttpUri.Proofs.Query.Stability
import HttpUri.Proofs.Query.Surrogates
import HttpUri.Proofs.Query.Utf16
import HttpUri.Proofs.Reference.Abnf
import HttpUri.Proofs.Reference.Encoded
import HttpUri.Proofs.Reference.Location
import HttpUri.Proofs.Reference.Paths
import HttpUri.Proofs.Reference.Recognition
import HttpUri.Proofs.Reference.Segments
import HttpUri.Proofs.Reference.Separation
import HttpUri.Proofs.Reference.Zones
import HttpUri.Proofs.Request.Canonical
import HttpUri.Proofs.Request.Coherence
import HttpUri.Proofs.Request.Composable
import HttpUri.Proofs.Request.Controls
import HttpUri.Proofs.Request.Decomposition
import HttpUri.Proofs.Request.Freshness
import HttpUri.Proofs.Request.HostForm
import HttpUri.Proofs.Request.Identity
import HttpUri.Proofs.Request.Ledger
import HttpUri.Proofs.Request.QueryString
import HttpUri.Proofs.Request.Rebuilding
import HttpUri.Proofs.Request.Refinement
import HttpUri.Proofs.Request.Rendering
import HttpUri.Proofs.Request.Target
import HttpUri.Proofs.Text.Lower
import HttpUri.Proofs.Text.Pieces
import HttpUri.Proofs.Url.Agreement
import HttpUri.Proofs.Url.Canonical
import HttpUri.Proofs.Url.Closure
import HttpUri.Proofs.Url.Composition
import HttpUri.Proofs.Url.Containment
import HttpUri.Proofs.Url.Encoding
import HttpUri.Proofs.Url.Failure
import HttpUri.Proofs.Url.Host
import HttpUri.Proofs.Url.Octets
import HttpUri.Proofs.Url.Outcomes
import HttpUri.Proofs.Url.Parse
import HttpUri.Proofs.Url.Parts
import HttpUri.Proofs.Url.Path
import HttpUri.Proofs.Url.Readback
