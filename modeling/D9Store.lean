import D9Store.Results.Accounts
import D9Store.Results.AuthorisedReads
import D9Store.Results.BucketDeletion
import D9Store.Results.ChunkedEncoding
import D9Store.Results.CompletionSpec
import D9Store.Results.Conditionals
import D9Store.Results.Confinement
import D9Store.Results.Copies
import D9Store.Results.CopyDirectives
import D9Store.Results.CopySources
import D9Store.Results.ExplicitDelete
import D9Store.Results.FailedLookups
import D9Store.Results.ForeignState
import D9Store.Results.HeaderSpaces
import D9Store.Results.Isolation
import D9Store.Results.KeyPaths
import D9Store.Results.LeftoverParts
import D9Store.Results.Listing
import D9Store.Results.Locks
import D9Store.Results.MetadataEffects
import D9Store.Results.MultipartETag
import D9Store.Results.ObjectPages
import D9Store.Results.OwnUploads
import D9Store.Results.PartPayloads
import D9Store.Results.PayloadHash
import D9Store.Results.Policies
import D9Store.Results.Prefilled
import D9Store.Results.Preflight
import D9Store.Results.PresignWindow
import D9Store.Results.PutOrUpload
import D9Store.Results.RangeClipping
import D9Store.Results.RangeReads
import D9Store.Results.ReadAfterWrite
import D9Store.Results.Recovery
import D9Store.Results.SelectCsv
import D9Store.Results.SelectParser
import D9Store.Results.SelectPredicates
import D9Store.Results.SelectPrinting
import D9Store.Results.SelectRows
import D9Store.Results.SignatureScope
import D9Store.Results.SingleEntry
import D9Store.Results.Streaming
import D9Store.Results.UnqualifiedDelete
import D9Store.Results.UnsignedHeaders
import D9Store.Results.UploadListing
import D9Store.Results.VersionBlobs
import D9Store.Results.VersionIDs
import D9Store.Results.VersionPages
import D9Store.Results.VersionedKey
import D9Store.Results.Wildcards
import D9Store.Results.XattrRoundTrip
