import Lance.Library.ExceptRun
import Lance.Library.Windows
import Lance.Select.RowAddrTreeMap
import Lance.Commit.Operation
import Lance.Commit.ConflictResolver
import Lance.Commit.RebaseFrame
import Lance.Commit.LostUpdate
import Lance.Index.SearchResult
import Lance.Index.NGram.Tokenizer
import Lance.Library.OptionList
import Lance.Library.Multimap
import Lance.Index.NGram.Train
import Lance.Library.SortDedup
import Lance.Index.NGram.TrigramQuery
import Lance.Index.NGram.Regex
import Lance.Index.NGram.RegexSoundness
import Lance.Index.NGram.Search
import Lance.Index.Fm.RankBitVec
import Lance.Index.Fm.Wavelet
import Lance.Index.Fm.FmIndex
import Lance.Index.Fm.CodeOverflow
import Lance.Index.Fm.Search
import Lance.Index.SargableQuery
import Lance.Index.Zoned
import Lance.Index.ZoneMap
import Lance.Library.PartitionPoint
import Lance.Library.Chunks
import Lance.Index.BTree.Lookup
import Lance.Index.BTree.Pages
import Lance.Index.BTree.Search
import Lance.Encoding.RepDef.Builder
import Lance.Encoding.RepDef.Serializer
import Lance.Encoding.RepDef.Unraveler
import Lance.Library.Tiling
import Lance.Encoding.RepDef.PageSplit
import Lance.Encoding.RepDef.PageSplitSpec
import Lance.Commit.CommitOrder
import Lance.Commit.Finish
import Lance.Commit.OverlayOrder
import Lance.Commit.DeleteRebase
import Lance.Core.RowAddress
import Lance.Select.RowAddrMask
import Lance.Select.RowAddrSet
import Lance.Library.LittleEndian
import Lance.Select.Serialize
import Lance.Library.BinarySearch
import Lance.RowIds.EncodedArray
import Lance.Library.ByteBits
import Lance.Library.WordArith
import Lance.RowIds.Bitmap
import Lance.RowIds.Segment
import Lance.Library.PrefixCodec
import Lance.RowIds.Serde
import Lance.Library.SortedRun
import Lance.RowIds.FromSlice
import Lance.Library.RangeMap
import Lance.RowIds.Index
import Lance.RowIds.IndexChunks
import Lance.RowIds.IndexPrep
import Lance.RowIds.IndexNew
import Lance.RowIds.IndexGetMany
import Lance.Library.Positions
import Lance.RowIds.SegmentEdit
import Lance.RowIds.SequenceEdit
import Lance.RowIds.SequenceSelect
import Lance.Core.Deletion
import Lance.Library.Count
import Lance.RowIds.TreeMap
import Lance.Select.InsertRange
import Lance.Select.BitmapRanges
import Lance.RowIds.Sequence
import Lance.Library.Runs
import Lance.RowIds.MaskRanges
import Lance.Core.RowAddrRemap
import Lance.Optimize.Remapping
import Lance.Encoding.Rle
import Lance.Library.RunLength
import Lance.Encoding.RleEncode
import Lance.Encoding.RleMiniBlock
import Lance.Library.Digits
import Lance.Encoding.Bitpacking
import Lance.Encoding.RepDef.ControlWord
import Lance.Encoding.Sparse
import Lance.Encoding.SparseSpec
import Lance.Library.Settles
import Lance.Encoding.RepDef.LayerChain
import Lance.Encoding.RepDef.NormalizeSpec
import Lance.Encoding.RepDef.SerializerRun
