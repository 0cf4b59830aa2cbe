import AccessPolicy.Rendering
import AccessPolicy.RoundTrip
import AccessPolicy.Session.Run
import AccessPolicy.Proofs.Outcome
import AccessPolicy.Proofs.Base64.Encoding
import AccessPolicy.Proofs.Base64.Exact
import AccessPolicy.Proofs.Identity.Reading
import AccessPolicy.Proofs.Policy.Checking
import AccessPolicy.Proofs.Policy.Calls
import AccessPolicy.Proofs.Text.Decimal
import AccessPolicy.Proofs.Text.Hex
import AccessPolicy.Proofs.Json.Grammar
import AccessPolicy.Proofs.Json.Completeness
import AccessPolicy.Proofs.Json.Soundness
import AccessPolicy.Proofs.Json.Written
import AccessPolicy.Proofs.Json.Magnitude
import AccessPolicy.Proofs.Json.Language
import AccessPolicy.Proofs.Json.Recognition
import AccessPolicy.Proofs.Wire.Version
import AccessPolicy.Proofs.Wire.Rereading
import AccessPolicy.Proofs.Wire.Schema
import AccessPolicy.Proofs.Wire.Exactness
import AccessPolicy.Proofs.Wire.Payloads
import AccessPolicy.Proofs.Conversion.Records
import AccessPolicy.Proofs.Conversion.Decoding
import AccessPolicy.Proofs.Conversion.Encoding
import AccessPolicy.Proofs.Conversion.ReadBack
import AccessPolicy.Proofs.Conversion.Etag
import AccessPolicy.Proofs.Conversion.Meaning
import AccessPolicy.Proofs.Conversion.Token
import AccessPolicy.Proofs.Conversion.Pipeline
import AccessPolicy.Proofs.Session.Effect
import AccessPolicy.Proofs.Session.Completeness
import AccessPolicy.Memory.Objects
import AccessPolicy.Memory.Workspace
import AccessPolicy.Proofs.Memory.Carrying
import AccessPolicy.Proofs.Memory.Sharing
import AccessPolicy.Proofs.Memory.Copies
import AccessPolicy.Proofs.Memory.Conversions
import AccessPolicy.Proofs.Memory.Lists
import AccessPolicy.Proofs.Memory.Mirroring
import AccessPolicy.Proofs.Memory.Steps
import AccessPolicy.Proofs.Memory.Isolation
import AccessPolicy.Proofs.Memory.Registers
import AccessPolicy.Proofs.Memory.Failures
import AccessPolicy.Proofs.Base64.Readers
import AccessPolicy.Proofs.Conversion.EtagReaders
import AccessPolicy.Proofs.Session.Logging
import AccessPolicy.Proofs.Memory.Logging
import AccessPolicy.Proofs.Conversion.EncodingOutcome
import AccessPolicy.Proofs.Conversion.DecodingOutcome
import AccessPolicy.Proofs.Identity.Grammar
import AccessPolicy.Proofs.Conversion.Grants
import AccessPolicy.Proofs.Policy.Defects
import AccessPolicy.Proofs.Memory.Validation
import AccessPolicy.Proofs.Base64.Padded
import AccessPolicy.Proofs.Conversion.PaddedEtags
import AccessPolicy.Proofs.Base64.Spellings
import AccessPolicy.Proofs.Wire.Reported
import AccessPolicy.Proofs.Wire.EtagTexts
import AccessPolicy.Proofs.Text.Blank
import AccessPolicy.Proofs.Wire.Numerals
import AccessPolicy.Proofs.Wire.VersionTexts
import AccessPolicy.Proofs.Json.Spellable
import AccessPolicy.Proofs.Wire.Shuffled
import AccessPolicy.Proofs.Wire.Rearrangement
import AccessPolicy.Proofs.Input.Identities
import AccessPolicy.Proofs.Input.Relisting
import AccessPolicy.Proofs.Policy.Equality
import AccessPolicy.Proofs.Text.Delimited
import AccessPolicy.Proofs.Text.Quoted
import AccessPolicy.Proofs.Rendering
