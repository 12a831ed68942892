import SealedArchive.Octets
import SealedArchive.Octets.Blocks
import SealedArchive.Octets.Range
import SealedArchive.Octets.Work
import SealedArchive.Octets.LittleEndian
import SealedArchive.Format
import SealedArchive.Error
import SealedArchive.Traced
import SealedArchive.Cipher
import SealedArchive.Cipher.Aes.Field
import SealedArchive.Cipher.Aes.Substitution
import SealedArchive.Cipher.Aes.State
import SealedArchive.Cipher.Aes
import SealedArchive.Cipher.Chaining.InPlace
import SealedArchive.Cipher.Stealing
import SealedArchive.Hash.Sha512.Compression
import SealedArchive.Hash.Sha512
import SealedArchive.Secret
import SealedArchive.Inspection
import SealedArchive.WorkFactor
import SealedArchive.Key.Stretch
import SealedArchive.Key.Derivation
import SealedArchive.Payload
import SealedArchive.Header
import SealedArchive.Stream
import SealedArchive.Session
import SealedArchive.Workspace
import SealedArchive.Proofs.Log
import SealedArchive.Proofs.Chaining.InPlace
import SealedArchive.Proofs.Chaining.Streams
import SealedArchive.Proofs.Stealing.Parts
import SealedArchive.Proofs.Stealing.Inverse
import SealedArchive.Proofs.Stealing.InPlace
import SealedArchive.Proofs.Stealing.Buffer
import SealedArchive.Proofs.Stealing.Layout
import SealedArchive.Proofs.Stealing.Damage
import SealedArchive.Proofs.Key.Rounds
import SealedArchive.Proofs.Key.RoundCount
import SealedArchive.Proofs.Key.FlatStream
import SealedArchive.Proofs.Key.Ambiguity
import SealedArchive.Proofs.Key.Passes
import SealedArchive.Proofs.Key.Scratch
import SealedArchive.Proofs.Key.Separation
import SealedArchive.Proofs.Secret.History
import SealedArchive.Proofs.WorkFactor.Encoding
import SealedArchive.Proofs.WorkFactor.Greatest
import SealedArchive.Proofs.Payload.Transform
import SealedArchive.Proofs.Payload.Permutation
import SealedArchive.Proofs.Payload.CommonBlocks
import SealedArchive.Proofs.Payload.Atomic
import SealedArchive.Proofs.Header.Packing
import SealedArchive.Proofs.Header.Layout
import SealedArchive.Proofs.Header.Sealing
import SealedArchive.Proofs.Header.Protection
import SealedArchive.Proofs.Stream.Delivery
import SealedArchive.Proofs.Stream.Reading
import SealedArchive.Proofs.Stream.Filling
import SealedArchive.Proofs.Session.Build
import SealedArchive.Proofs.Session.LastSettings
import SealedArchive.Proofs.Session.Stretching
import SealedArchive.Proofs.Session.Reload
import SealedArchive.Proofs.Session.Batch
import SealedArchive.Proofs.Session.Progress
import SealedArchive.Proofs.Session.Journal
import SealedArchive.Proofs.Session.Disclosure
import SealedArchive.Proofs.Archive.RoundTrip
